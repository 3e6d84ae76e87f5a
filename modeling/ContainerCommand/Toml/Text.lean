import ContainerCommand.Number.Numeral
import ContainerCommand.Text.Reader

/-! Texts and keys in TOML.

A text stands between double quotes, where a backslash starts an escape, or between
single quotes, where nothing does; three quotes let it run over several lines. A key is
a text of one line or a run of plain characters. -/
namespace ContainerCommand.Toml
open Text Number

/-- Blanks within a line. -/
def isBlank (c : Char) : Bool := c == ' ' || c == '\t'

/-- The characters that stand for themselves: all but the control characters, the tab apart. -/
def isPlain (c : Char) : Bool :=
  c == '\t' || (0x20 ≤ c.toNat && c.toNat != 0x7F)

/-- The character of a code point. -/
def codePoint? (n : Nat) : Option Char :=
  if n.isValidChar then some (Char.ofNat n) else none

/-- The character that a letter behind a backslash stands for. -/
def escaped? : Char → Option Char
  | 'b' => some '\x08'
  | 't' => some '\t'
  | 'n' => some '\n'
  | 'f' => some '\x0c'
  | 'r' => some '\r'
  | 'e' => some '\x1b'
  | '"' => some '"'
  | '\\' => some '\\'
  | _ => none

/-- The number of hexadecimal digits behind a letter that asks for a code point. -/
def escapeWidth? : Char → Option Nat
  | 'x' => some 2
  | 'u' => some 4
  | 'U' => some 8
  | _ => none

/-- What stands behind a backslash, as the character that it stands for. -/
def escape : Reader Char
  | [] => none
  | c :: rest =>
    match escapeWidth? c with
    | some width => do
      let digits := rest.take width
      if digits.length < width then none
      else
        let unit ← codePoint? (← ofRadix? 16 digits)
        some (unit, .behind (.drop width rest))
    | none => (escaped? c).map fun unit => (unit, .tail rest)

/-- Adds a character to a text that has been read from what is left. -/
def prepend {cs ds : List Char} (c : Char) (h : ds.length ≤ cs.length)
    (read : Option (List Char × Rest ds)) : Option (List Char × Rest cs) :=
  read.map fun (s, rest) => (c :: s, rest.widen h)

/-- A text of one line up to its closing double quote. -/
def basic (cs : List Char) : Option (List Char × Rest cs) :=
  match cs with
  | [] => none
  | '"' :: rest => some ([], .tail rest)
  | '\\' :: rest =>
    match escape rest with
    | none => none
    | some (c, last) => prepend c (Nat.le_succ_of_le (Nat.le_of_lt last.2)) (basic last.1)
  | c :: rest => if isPlain c then prepend c (Nat.le_succ _) (basic rest) else none
termination_by cs.length
decreasing_by
  · have := last.2
    simp only [List.length_cons]
    omega
  · simp

/-- A text of one line up to its closing single quote. -/
def literal (cs : List Char) : Option (List Char × Rest cs) :=
  match cs with
  | [] => none
  | c :: rest =>
    if c = '\'' then some ([], .tail rest)
    else if isPlain c then prepend c (Nat.le_succ _) (literal rest)
    else none

/-- The end of a text of several lines: three quotes in front of which up to two more belong to the
text. -/
def closing? (quote : Char) : (cs : List Char) → Option (List Char × Rest cs)
  | a :: b :: c :: rest =>
    if a = quote ∧ b = quote ∧ c = quote then
      match rest with
      | d :: e :: last =>
        if d = quote ∧ e = quote then
          some ([quote, quote], .behind (Suffix.all last).behind.behind.behind.behind)
        else if d = quote then
          some ([quote], .behind (Suffix.all (e :: last)).behind.behind.behind)
        else some ([], .behind (Suffix.all (d :: e :: last)).behind.behind)
      | [d] =>
        if d = quote then some ([quote], .behind (Suffix.all []).behind.behind.behind)
        else some ([], .behind (Suffix.all [d]).behind.behind)
      | [] => some ([], .behind (Suffix.all []).behind.behind)
    else none
  | _ => none

/-- What follows the end of a line at the front of a text. -/
def lineEnd? : (cs : List Char) → Option (Rest cs)
  | '\n' :: rest => some (.tail rest)
  | '\r' :: '\n' :: rest => some (.behind (Suffix.all rest).behind)
  | _ => none

/-- A text without the blanks and ends of lines at its front. -/
def skipLines (cs : List Char) : Suffix cs :=
  match lineEnd? cs with
  | some rest => (skipLines rest.1).widen rest.toSuffix.2
  | none =>
    match cs with
    | [] => .all []
    | c :: rest => if isBlank c then (skipLines rest).behind else .all (c :: rest)
termination_by cs.length
decreasing_by
  all_goals first | exact rest.2 | simp

/-- What follows a line's end behind a backslash, without the blanks and ends of lines there. -/
def continuation? (cs : List Char) : Option (Suffix cs) :=
  (lineEnd? (cs.dropWhile isBlank)).map fun rest =>
    ⟨(skipLines rest.1).1, by
      have := (skipLines rest.1).2
      have := rest.2
      have := length_dropWhile_le isBlank cs
      omega⟩

/-- Whether a carriage return at the front of a text does not end a line. -/
def isLoneReturn : List Char → Bool
  | '\r' :: '\n' :: _ => false
  | '\r' :: _ => true
  | _ => false

/-- A text of several lines up to its closing double quotes. -/
def basicLines (cs : List Char) : Option (List Char × Rest cs) :=
  match closing? '"' cs with
  | some closed => some closed
  | none =>
    match cs with
    | [] => none
    | '\\' :: rest =>
      match continuation? rest with
      | some last => (basicLines last.1).map fun (s, end_) =>
          (s, end_.widen (Nat.le_succ_of_le last.2))
      | none =>
        match escape rest with
        | none => none
        | some (c, last) => prepend c (Nat.le_succ_of_le (Nat.le_of_lt last.2)) (basicLines last.1)
    | c :: rest =>
      if isPlain c || c == '\n' || (c == '\r' && !isLoneReturn (c :: rest)) then
        prepend c (Nat.le_succ _) (basicLines rest)
      else none
termination_by cs.length
decreasing_by
  · have := last.2
    simp only [List.length_cons]
    omega
  · have := last.2
    simp only [List.length_cons]
    omega
  · simp

/-- A text of several lines up to its closing single quotes. -/
def literalLines (cs : List Char) : Option (List Char × Rest cs) :=
  match closing? '\'' cs with
  | some closed => some closed
  | none =>
    match cs with
    | [] => none
    | c :: rest =>
      if isPlain c || c == '\n' || (c == '\r' && !isLoneReturn (c :: rest)) then
        prepend c (Nat.le_succ _) (literalLines rest)
      else none

/-- A text without the line's end at its front. -/
def dropLineEnd (cs : List Char) : Suffix cs :=
  match lineEnd? cs with
  | some rest => rest.toSuffix
  | none => .all cs

/-- A text between quotes of one kind. -/
def between (one lines : (cs : List Char) → Option (List Char × Rest cs)) (quote : Char) :
    Reader String
  | a :: b :: c :: rest =>
    if a = quote ∧ b = quote ∧ c = quote then
      (lines (dropLineEnd rest).1).map fun (s, last) =>
        (String.ofList s, last.widen (by
          have := (dropLineEnd rest).2
          simp only [List.length_cons]
          omega))
    else if a = quote then
      (one (b :: c :: rest)).map fun (s, last) => (String.ofList s, last.widen (Nat.le_succ _))
    else none
  | a :: rest =>
    if a = quote then
      (one rest).map fun (s, last) => (String.ofList s, last.widen (Nat.le_succ _))
    else none
  | [] => none

/-- A text in any of the four forms. -/
def string : Reader String := fun cs =>
  match between basic basicLines '"' cs with
  | some read => some read
  | none => between literal literalLines '\'' cs

/-! ### Keys -/

/-- The characters of a key without quotes. -/
def isKeyChar (c : Char) : Bool :=
  c.isAlphanum || c == '_' || c == '-'

/-- One key. -/
def key : Reader String
  | '"' :: rest =>
    (basic rest).map fun (s, last) => (String.ofList s, last.widen (Nat.le_succ _))
  | '\'' :: rest =>
    (literal rest).map fun (s, last) => (String.ofList s, last.widen (Nat.le_succ _))
  | cs => (Reader.run isKeyChar cs).map fun (s, last) => (String.ofList s, last)

/-- How deep lists and tables nest within a line, and how many keys a dotted key has. -/
def depthLimit : Nat := 80

/-- Keys with dots between them: those in front of the last, and the last. -/
def keys (cs : List Char) : Option ((List String × String) × Rest cs) :=
  match key cs with
  | none => none
  | some (name, rest) =>
    let rest := rest.skip isBlank
    match h : rest.1 with
    | [] => some (([], name), rest)
    | c :: tail =>
      if c = '.' then
        have hlt := rest.length_dropWhile_tail_lt h isBlank
        (keys (tail.dropWhile isBlank)).map fun ((path, last), end_) =>
          ((name :: path, last), end_.within hlt)
      else some (([], name), rest)
termination_by cs.length

/-- A dotted key, which is at most `depthLimit` keys. -/
def dottedKey : Reader (List String × String) := fun cs =>
  (keys cs).filter fun ((path, _), _) => path.length < depthLimit

end ContainerCommand.Toml
