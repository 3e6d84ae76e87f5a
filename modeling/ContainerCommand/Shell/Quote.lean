/-! Names between quotes.

A shell lists what it knows in words that it reads back (`singleQuoted`). A program that
complains about a name shows it as such a word too, if it is one with quotes only where there
is need (`shellWord`), or as a text with escapes between apostrophes (`shownText`). -/
namespace ContainerCommand.Shell

/-- The letter behind a backslash for a control character. -/
def controlLetter? : Char → Option Char
  | '\x07' => some 'a'
  | '\x08' => some 'b'
  | '\t' => some 't'
  | '\n' => some 'n'
  | '\x0b' => some 'v'
  | '\x0c' => some 'f'
  | '\r' => some 'r'
  | _ => none

def isPrintable (c : Char) : Bool := ' ' ≤ c && c ≤ '~'

/-- A byte as a backslash and three octal digits. -/
def octalEscape (b : UInt8) : List Char :=
  let digit (n : Nat) : Char := Nat.digitChar (n % 8)
  ['\\', digit (b.toNat / 64), digit (b.toNat / 8), digit b.toNat]

/-- A character that cannot be printed as escapes. -/
def escapeOf (c : Char) : List Char :=
  match controlLetter? c with
  | some letter => ['\\', letter]
  | none => octalEscape (UInt8.ofNat c.toNat)

/-- A text between apostrophes, with escapes for what could be misread. -/
def shownText (text : String) : String :=
  let shown (c : Char) : List Char :=
    if c == '\'' || c == '\\' then ['\\', c]
    else if isPrintable c then [c] else escapeOf c
  "'" ++ String.ofList (text.toList.flatMap shown) ++ "'"

/-- The rest of a text that has been opened with an apostrophe, or with a quotation mark in which only
apostrophes stand. -/
def quotedRest : Bool → List Char → List Char
  | isDouble, [] => [if isDouble then '"' else '\'']
  | false, c :: rest =>
    if c == '\'' then '\'' :: '"' :: c :: quotedRest true rest else c :: quotedRest false rest
  | true, c :: rest =>
    if c == '\'' then c :: quotedRest true rest else '"' :: '\'' :: c :: quotedRest false rest

/-- A text between apostrophes, which a shell reads back as it is. -/
def singleQuoted (text : String) : String :=
  String.ofList ('\'' :: quotedRest false text.toList)

/-- What stands between the apostrophes of a word, from a place on where escapes are open or
not. -/
def wordBody : Bool → List Char → List Char
  | _, [] => []
  | isOpen, c :: rest =>
    if c == '\'' then '\'' :: '\\' :: '\'' :: '\'' :: wordBody false rest
    else if isPrintable c then
      (if isOpen then ['\'', '\''] else []) ++ c :: wordBody false rest
    else (if isOpen then [] else ['\'', '$', '\'']) ++ escapeOf c ++ wordBody true rest

/-- Whether a character in a word asks for quotes. -/
def asksQuotes (isAlone isFirst : Bool) (c : Char) : Bool :=
  !isPrintable c || " !\"$&'()*;<=>?[\\^\x60|".toList.contains c ||
    (isFirst && (c == '#' || c == '~')) || (isAlone && (c == '\x7b' || c == '\x7d'))

/-- Whether a character means the same between quotation marks as between apostrophes. -/
def isSameQuoted (isFirst : Bool) (c : Char) : Bool :=
  isPrintable c && !"!\"$&()*;<=>?[\\^\x60|\x7b\x7d".toList.contains c &&
    (isFirst || (c != '#' && c != '~'))

/-- A text as one word for a shell. Without need, and without one of the given characters, it has
no quotes. One with an apostrophe is put between quotation marks if that changes nothing; else, if
it ends in an escape, it starts as if escapes were open. -/
def shellWord (special : List Char) (text : String) : String :=
  let cs := text.toList
  let isAlone := cs.length == 1
  let needs := cs.isEmpty || cs.head?.any (asksQuotes isAlone true) ||
    (cs.drop 1).any (asksQuotes isAlone false) || cs.any special.contains
  if !needs then text
  else if cs.contains '\'' && cs.head?.all (isSameQuoted true) &&
      (cs.drop 1).all (isSameQuoted false) then "\"" ++ text ++ "\""
  else
    let isDoubled := cs.contains '\'' && cs.getLast?.any fun c => !isPrintable c
    "'" ++ String.ofList (wordBody isDoubled cs) ++ "'"

end ContainerCommand.Shell
