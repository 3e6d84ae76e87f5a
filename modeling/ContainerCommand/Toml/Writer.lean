import ContainerCommand.Document
import ContainerCommand.Number.Layout

/-! Writing TOML.

A text is written in the plainest form that can hold it (`form`): between double quotes if
nothing has to be escaped, else between single quotes, else over several lines, and only
if none of these is possible with escapes. A list of more than one value has each on a
line of its own. The tables of a document follow its other values as sections. -/
namespace ContainerCommand.Toml
open Number

/-! ### Texts -/

/-- The forms of a text. -/
inductive Form where
  | basic
  | literal
  | basicLines
  | literalLines
deriving DecidableEq

/-- A control character other than tab and line feed. -/
def needsCode (c : Char) : Bool :=
  (c.toNat ≤ 0x1F && c != '\t' && c != '\n') || c.toNat == 0x7F

/-- The length of the longest run of a character, where `current` of them stand in front. -/
def longestRun (c : Char) (current : Nat) : List Char → Nat
  | [] => current
  | d :: rest => if d = c then longestRun c (current + 1) rest else max current (longestRun c 0 rest)

/-- The form in which a text is written. -/
def form (cs : List Char) : Form :=
  let codes := cs.any needsCode
  let escapes := cs.contains '\\'
  let lines := cs.contains '\n'
  let double := longestRun '"' 0 cs
  let single := longestRun '\'' 0 cs
  if !codes && !escapes && double = 0 && !lines then .basic
  else if !codes && single = 0 && !lines then .literal
  else if !codes && !escapes && double ≤ 2 then .basicLines
  else if !codes && single ≤ 2 then .literalLines
  else if lines then .basicLines
  else .basic

/-- The four hexadecimal digits of a control character. -/
def codeDigits (c : Char) : List Char :=
  let digits := (Nat.toDigits 16 c.toNat).map Char.toUpper
  List.replicate (4 - digits.length) '0' ++ digits

/-- A character with the escape that it needs between double quotes, if it needs one. -/
def escapeOf (overLines : Bool) (c : Char) : List Char :=
  match c with
  | '\x08' => ['\\', 'b']
  | '\t' => ['\\', 't']
  | '\n' => if overLines then ['\n'] else ['\\', 'n']
  | '\x0c' => ['\\', 'f']
  | '\r' => ['\\', 'r']
  | '\\' => ['\\', '\\']
  | c => if needsCode c then '\\' :: 'u' :: codeDigits c else [c]

/-- A text between double quotes with its escapes. Within one line each quote is escaped, over
several lines each third one; `quotes` have been written in front. -/
def escapeAll (overLines : Bool) (quotes : Nat) : List Char → List Char
  | [] => []
  | c :: rest =>
    if c = '"' then
      if overLines && quotes < 2 then '"' :: escapeAll overLines (quotes + 1) rest
      else '\\' :: '"' :: escapeAll overLines 0 rest
    else escapeOf overLines c ++ escapeAll overLines 0 rest

/-- A text as it is written. -/
def quoted (cs : List Char) : List Char :=
  let start := if cs.contains '\n' then ['\n'] else []
  match form cs with
  | .basic => '"' :: escapeAll false 0 cs ++ ['"']
  | .literal => '\'' :: cs ++ ['\'']
  | .basicLines => ['"', '"', '"'] ++ start ++ escapeAll true 0 cs ++ ['"', '"', '"']
  | .literalLines => ['\'', '\'', '\''] ++ start ++ cs ++ ['\'', '\'', '\'']

/-! ### Values -/

/-- A key as it is written: as it is if it is plain, else as a text. -/
def keyText (key : String) : List Char :=
  let cs := key.toList
  if !cs.isEmpty && cs.all (fun c => c.isAlphanum || c == '_' || c == '-') then cs else quoted cs

/-- Numbers that are not whole have their shortest digits and no exponent. -/
def floatLayout : Layout :=
  { isPositional := fun _ => true, pointZero := true, tie := .up }

/-- The items of a list as it is written: up to one item in one line, else a line for each. -/
def layItems : List (List Char) → List Char
  | [] => ['[', ']']
  | [item] => '[' :: item ++ [']']
  | items =>
    ['[', '\n'] ++ items.flatMap (fun item => "    ".toList ++ item ++ [',', '\n']) ++ [']']

/-- The entries of a table within a line. -/
def layEntries (entries : List (List Char)) : List Char :=
  if entries.isEmpty then ['\x7b', '\x7d']
  else "\x7b ".toList ++ [',', ' '].intercalate entries ++ " \x7d".toList

mutual

/-- A value as it is written. Nothing stands for null, which the notation lacks. -/
def valueText : Document → List Char
  | .null => []
  | .bool b => (if b then "true" else "false").toList
  | .int n => (Numeral.ofInt n).text.toList
  | .float x => (floatLayout.write x).toList
  | .text s => quoted s.toList
  | .moment s => s.toList
  | .list items => layItems (valueTexts items)
  | .table entries => layEntries (entryTexts entries)

def valueTexts : List Document → List (List Char)
  | [] => []
  | doc :: rest => valueText doc :: valueTexts rest

def entryTexts : List (String × Document) → List (List Char)
  | [] => []
  | (key, doc) :: rest => (keyText key ++ " = ".toList ++ valueText doc) :: entryTexts rest

end

/-! ### Documents -/

/-- Lines, each with its end. -/
def linesOf (texts : List (List Char)) : List Char :=
  texts.flatMap (· ++ ['\n'])

def isTable : Document → Bool
  | .table _ => true
  | _ => false

/-- A section: a blank line, its header and its entries. -/
def sectionText (key : String) : Document → List Char
  | .table entries => '\n' :: '[' :: keyText key ++ [']', '\n'] ++ linesOf (entryTexts entries)
  | _ => []

/-- A document as it is written: its values, then its tables. -/
def write (entries : List (String × Document)) : String :=
  let values := entries.filter (!isTable ·.2)
  String.ofList <|
    linesOf (entryTexts values) ++ entries.flatMap fun entry => sectionText entry.1 entry.2

end ContainerCommand.Toml
