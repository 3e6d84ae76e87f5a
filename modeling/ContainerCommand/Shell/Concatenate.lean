import ContainerCommand.Text.Narrow

/-! The options of `cat`, and how it shows what it copies. -/
namespace ContainerCommand.Shell.Concatenate

/-- The lines that are counted. -/
inductive Counting where
  | none
  | all
  | nonEmpty
deriving DecidableEq

structure Display where
  counting : Counting := .none
  /-- Whether empty lines that follow an empty line are left out. -/
  squeezes : Bool := false
  showsEnds : Bool := false
  showsTabs : Bool := false
  /-- Whether bytes that cannot be seen are shown by others. -/
  showsHidden : Bool := false

/-! ### Options -/

/-- Why options cannot be read. -/
inductive Fault where
  | unknownLetter (c : Char)
  | unknownName (text : String)
  | ambiguous (text : String) (names : List String)
  | noArgument (name : String)

def Fault.message : Fault → String
  | .unknownLetter c =>
    "invalid option -- '" ++ String.ofList [c] ++ "'"
  | .unknownName text => "unrecognized option '" ++ text ++ "'"
  | .ambiguous text names =>
    "option '" ++ text ++ "' is ambiguous; possibilities: " ++
      " ".intercalate (names.map fun name => "'--" ++ name ++ "'")
  | .noArgument name => "option '--" ++ name ++ "' doesn't allow an argument"

/-- The letters of the options that are written in full. -/
def longNames : List (String × Char) :=
  [("number-nonblank", 'b'), ("number", 'n'), ("squeeze-blank", 's'), ("show-nonprinting", 'v'),
    ("show-ends", 'E'), ("show-tabs", 'T'), ("show-all", 'A')]

/-- Sets the option of a letter. -/
def Display.set? (d : Display) : Char → Option Display
  | 'b' => some { d with counting := .nonEmpty }
  | 'n' => some { d with counting := if d.counting = .nonEmpty then .nonEmpty else .all }
  | 's' => some { d with squeezes := true }
  | 'v' => some { d with showsHidden := true }
  | 'E' => some { d with showsEnds := true }
  | 'T' => some { d with showsTabs := true }
  | 'A' => some { d with showsHidden := true, showsEnds := true, showsTabs := true }
  | 'e' => some { d with showsHidden := true, showsEnds := true }
  | 't' => some { d with showsHidden := true, showsTabs := true }
  | 'u' => some d
  | _ => none

/-- Sets the options of some letters. -/
def Display.setAll (d : Display) : List Char → Except Fault Display
  | [] => .ok d
  | c :: rest =>
    match d.set? c with
    | some d => d.setAll rest
    | none => .error (.unknownLetter c)

/-- The letter of an option that is written in full, or as far as it can be told from others. -/
def letter (text : String) : Except Fault Char :=
  let written := (text.toList.drop 2).takeWhile (· != '=')
  let meant := longNames.filter fun entry => written.isPrefixOf entry.1.toList
  let exact := meant.filter fun entry => entry.1.toList == written
  match exact ++ meant with
  | [] => .error (.unknownName text)
  | (name, c) :: others =>
    if exact.isEmpty && !others.isEmpty then .error (.ambiguous text (meant.map Prod.fst))
    else if text.contains '=' then .error (.noArgument name)
    else .ok c

/-- The options and the names of the files among some arguments. -/
def readArguments (d : Display) : List String → Except Fault (Display × List String)
  | [] => .ok (d, [])
  | "--" :: names => .ok (d, names)
  | arg :: rest =>
    match arg.toList with
    | '-' :: '-' :: _ => do readArguments (← d.setAll [← letter arg]) rest
    | '-' :: c :: letters => do readArguments (← d.setAll (c :: letters)) rest
    | _ => do
      let (d, names) ← readArguments d rest
      return (d, arg :: names)

/-! ### Output -/

/-- How far the output has come. -/
structure Progress where
  count : Nat := 0
  /-- How many empty lines have come one after the other. -/
  empties : Nat := 0
  isLineStart : Bool := true

/-- What stands in front of a line of some number. -/
def lineNumber (n : Nat) : List UInt8 :=
  let digits := Text.toBytes (toString n)
  List.replicate (6 - digits.length) 32 ++ digits ++ [9]

/-- A byte as it is shown. -/
def Display.shown (d : Display) (b : UInt8) : List UInt8 :=
  let control (b : UInt8) : List UInt8 :=
    if b < 32 then [94, b + 64] else if b = 127 then [94, 63] else [b]
  if b = 9 then if d.showsTabs then [94, 73] else [9]
  else if !d.showsHidden then [b]
  else if b < 128 then control b
  else [77, 45] ++ control (b - 128)

/-- Bytes as they are shown. -/
def Display.output (d : Display) (p : Progress) : List UInt8 → List UInt8 × Progress
  | [] => ([], p)
  | 10 :: rest =>
    let lineEnd : List UInt8 := if d.showsEnds then [36, 10] else [10]
    if !p.isLineStart then
      let (bytes, last) := d.output { p with isLineStart := true, empties := 0 } rest
      (lineEnd ++ bytes, last)
    else
      let p := { p with empties := p.empties + 1 }
      if d.squeezes && 1 < p.empties then d.output p rest
      else
        let isCounted := d.counting = .all
        let count := if isCounted then p.count + 1 else p.count
        let (bytes, last) := d.output { p with count } rest
        ((if isCounted then lineNumber count else []) ++ lineEnd ++ bytes, last)
  | b :: rest =>
    let isCounted := p.isLineStart && d.counting != .none
    let count := if isCounted then p.count + 1 else p.count
    let own := if b = 13 && d.showsEnds && rest.head? = some 10 then [94, 77] else d.shown b
    let (bytes, last) := d.output { count, empties := 0, isLineStart := false } rest
    ((if isCounted then lineNumber count else []) ++ own ++ bytes, last)

end ContainerCommand.Shell.Concatenate
