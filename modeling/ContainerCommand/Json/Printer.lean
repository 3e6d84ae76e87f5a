import ContainerCommand.Document
import ContainerCommand.Number.Layout

/-! Writing JSON, on one line or indented by two blanks.

Texts are written as they are except for quotes, backslashes and control characters;
numbers that are not whole take their shortest digits (`layout`). -/
namespace ContainerCommand.Json
open Number

/-- Numbers are positional between `1e-5` and `1e16`, whole ones keep `.0`, and ties between
digits go to the even one. -/
def layout : Layout :=
  { isPositional := fun e => decide (-5 ≤ e) && decide (e < 16), pointZero := true, tie := .toEven }

/-- The two lower-case hexadecimal digits of a control character. -/
def hexPair (n : Nat) : List Char :=
  [Nat.digitChar (n / 16), Nat.digitChar (n % 16)]

/-- How a character is written inside a text. -/
def escape (c : Char) : List Char :=
  if c == '"' then ['\\', '"']
  else if c == '\\' then ['\\', '\\']
  else if c == '\n' then ['\\', 'n']
  else if c == '\r' then ['\\', 'r']
  else if c == '\t' then ['\\', 't']
  else if c == '\x08' then ['\\', 'b']
  else if c == '\x0c' then ['\\', 'f']
  else if c.toNat < 0x20 then ['\\', 'u', '0', '0'] ++ hexPair c.toNat
  else [c]

def quoted (s : String) : String :=
  String.ofList ('"' :: s.toList.flatMap escape ++ ['"'])

/-- The text of a floating-point number; an infinity or no number is written as null. -/
def floatText (x : Binary64) : String :=
  match layout.numeral? x with
  | some n => n.text
  | none => "null"

/-- Joins the members of a list or table between brackets, on one line. -/
def joinInline (opening closing : String) (members : List String) : String :=
  opening ++ ",".intercalate members ++ closing

/-- Joins the members of a list or table between brackets, one on a line. -/
def joinIndented (indent : String) (opening closing : String) (members : List String) : String :=
  if members.isEmpty then opening ++ closing
  else
    opening ++ "\n" ++ ",\n".intercalate (members.map (indent ++ "  " ++ ·)) ++ "\n" ++ indent ++
      closing

mutual

/-- A document on one line. -/
def compact : Document → String
  | .null => "null"
  | .bool b => if b then "true" else "false"
  | .int n => (Numeral.ofInt n).text
  | .float x => floatText x
  | .text s => quoted s
  | .moment s => quoted s
  | .list items => joinInline "[" "]" (compactItems items)
  | .table entries => joinInline "\x7b" "\x7d" (compactEntries entries)

def compactItems : List Document → List String
  | [] => []
  | doc :: rest => compact doc :: compactItems rest

def compactEntries : List (String × Document) → List String
  | [] => []
  | (name, doc) :: rest => (quoted name ++ ":" ++ compact doc) :: compactEntries rest

end

mutual

/-- A document with each member on a line of its own, `indent` in front of its last line. -/
def pretty (indent : String) : Document → String
  | .list items => joinIndented indent "[" "]" (prettyItems (indent ++ "  ") items)
  | .table entries =>
    joinIndented indent "\x7b" "\x7d" (prettyEntries (indent ++ "  ") entries)
  | doc => compact doc

def prettyItems (indent : String) : List Document → List String
  | [] => []
  | doc :: rest => pretty indent doc :: prettyItems indent rest

def prettyEntries (indent : String) : List (String × Document) → List String
  | [] => []
  | (name, doc) :: rest =>
    (quoted name ++ ": " ++ pretty indent doc) :: prettyEntries indent rest

end

end ContainerCommand.Json
