import ContainerCommand.Shell.Source

/-! Reading words.

A word is read character by character (`Draft.take`). What a character means depends on the
quotes and brackets that it stands in, which form a stack of contexts. A parameter between
braces and an expression between brackets are parts that hold other parts, so what has been read
is a stack too: the parts of the innermost one, and those around it. A text that a script holds
for a command is read in the same way, up to the line that ends it. -/
namespace ContainerCommand.Shell
open Source

/-- How characters are taken. -/
inductive Mode where
  | plain
  | single
  | double
  | expression
deriving DecidableEq

/-- What is open at a place of a word. -/
structure Context where
  mode : Mode := .plain
  /-- Whether the place is between double quotes, or in a text or an expression. -/
  isDouble : Bool := false
  /-- Whether the context was opened by the first of its braces. -/
  isBraced : Bool := false
  /-- Whether double quotes have been opened between braces. -/
  isInner : Bool := false
  /-- The braces that are open. -/
  braces : Nat := 0
  /-- Those that were opened between double quotes. -/
  doubleBraces : Nat := 0
  /-- The brackets that are open in an expression. -/
  brackets : Nat := 0

/-- A part that has been started. -/
inductive Opened where
  | parameter (name : String) (use : Use) (countsEmpty : Bool)
  | expression

/-- What has been read of a word. -/
structure Draft where
  /-- The parts, the last first. -/
  parts : List Part := []
  /-- The parts that have been started, each behind others, the innermost first. -/
  around : List (Opened × List Part) := []
  context : Context := {}
  outer : List Context := []
  isQuoted : Bool := false

/-- What is read: a word, or a text that ends with a line if there is such a line. -/
inductive Goal where
  | word
  | text (mark : Option (List Char)) (dropsTabs : Bool)

def Goal.isText : Goal → Bool
  | .word => false
  | .text _ _ => true

/-- Reads a script that a word holds. -/
abbrev Inner : Type := Reader Script

namespace Draft

/-! ### Parts -/

def put (d : Draft) (part : Part) : Draft :=
  { d with parts := part :: d.parts }

/-- Puts a character, which has no meaning between quotes. -/
def putChar (d : Draft) (c : Char) : Draft :=
  d.put (match d.context.mode with
    | .plain | .expression => .live c
    | .single | .double => .fixed c)

def inContext (d : Draft) (change : Context → Context) : Draft :=
  { d with context := change d.context }

/-- Opens a context inside. -/
def enter (d : Draft) (context : Context) : Draft :=
  { d with context, outer := d.context :: d.outer }

/-- Goes back to the context around. -/
def leave (d : Draft) : Draft :=
  match d.outer with
  | [] => d
  | context :: outer => { d with context, outer }

/-- Starts a part that holds others. -/
def openPart (d : Draft) (opened : Opened) : Draft :=
  { d with parts := [], around := (opened, d.parts) :: d.around }

/-- Ends the part that has been started last. -/
def closePart (d : Draft) : Draft :=
  match d.around with
  | [] => d
  | (opened, before) :: around =>
    let inner := d.parts.reverse
    let part := match opened with
      | .parameter name use countsEmpty => .parameter name use countsEmpty inner
      | .expression => .arithmetic inner
    { d with parts := part :: before, around }

/-! ### Quotes, braces and brackets -/

/-- Notes a place where quotes are; in a text there are none. -/
def putMark (d : Draft) (goal : Goal) : Draft :=
  if goal.isText then d else d.put .mark

/-- Passes a double quote. -/
def passDouble (d : Draft) (goal : Goal) : Draft :=
  (d.inContext fun x => { x with isInner := if 0 < x.braces then !x.isInner else x.isInner }).putMark
    goal

/-- Opens quotes. -/
def openQuote (d : Draft) (goal : Goal) (c : Char) : Draft :=
  if c == '\'' then (d.inContext ({ · with mode := .single })).putMark goal
  else (d.inContext ({ · with mode := .double, isDouble := true })).passDouble goal

/-- Closes quotes, unless there are none in a text. -/
def closeQuote (d : Draft) (goal : Goal) (c : Char) : Draft :=
  if goal.isText && d.context.braces == 0 then d.putChar c
  else
    let d := d.inContext fun x =>
      if x.doubleBraces == 0 then { x with mode := .plain, isDouble := false } else x
    let d := { d with isQuoted := true }
    if c == '"' then d.passDouble goal else d.putMark goal

/-- Passes a closing brace. -/
def closeBrace (d : Draft) : Draft :=
  let x := d.context
  if x.isInner || x.braces == 0 then d.putChar '\x7d'
  else
    let d := d.inContext ({ · with braces := x.braces - 1 })
    let d := if x.braces == 1 && x.isBraced then d.leave
      else d.inContext ({ · with doubleBraces := x.doubleBraces - 1 })
    d.closePart

/-- Starts a parameter between braces, behind which other parts follow. -/
def openBrace (d : Draft) (name : String) (use : Use) (countsEmpty : Bool) : Draft :=
  let mode := match use, d.context.mode with
    | .trim _ _, _ => .plain
    | _, .expression => .double
    | _, mode => mode
  let d := if mode != d.context.mode || d.context.isInner then
      d.enter { mode, isDouble := mode != .plain, isBraced := true }
    else d
  let d := d.inContext fun x => { x with
    braces := x.braces + 1
    doubleBraces := if x.isDouble then x.doubleBraces + 1 else x.doubleBraces }
  d.openPart (.parameter name use countsEmpty)

/-- Passes a closing bracket in an expression, which ends it if there are two. -/
def closeBracket (d : Draft) : Reader Draft := do
  if 0 < d.context.brackets then
    return (d.inContext fun x => { x with brackets := x.brackets - 1 }).putChar ')'
  else
    let c ← nextJoined
    if c == some ')' then return d.leave.closePart
    else
      back c
      return d.putChar ')'

/-- Passes a backslash. It takes the meaning from what follows it; where that has none it stands
for itself. -/
def passBackslash (d : Draft) (goal : Goal) : Reader Draft := do
  match ← next with
  | none => return d.put (.fixed '\\')
  | some c =>
    let x := d.context
    let isIdle := x.isDouble && c != '\\' && c != '\x60' && c != '$' &&
      (c != '"' || (goal.isText && x.braces == 0)) && (c != '\x7d' || x.braces == 0)
    let d := if isIdle then d.put (.fixed '\\') else d
    return { d.put (.fixed c) with isQuoted := true }

/-! ### Parameters -/

/-- The name of a parameter that starts with some character, and what follows. Without braces a
number has one digit. -/
def nameFrom? (isBraced : Bool) : Option Char → Reader (Option (String × Option Char))
  | none => return none
  | some c => do
    if isNameStart c then
      let (name, last) ← nextWhile isNameChar [c]
      return some (String.ofList name, last)
    else if c.isDigit then
      let (name, last) ← if isBraced then nextWhile Char.isDigit [c]
        else do pure ([c], ← nextJoined)
      return some (String.ofList name, last)
    else return none

/-- The use that a character behind the name of a parameter asks for. -/
def useOf : Option Char → Use
  | some '\x7d' => .plain
  | some '-' => .fallback
  | some '+' => .replacement
  | some '?' => .refusal
  | some '=' => .assignment
  | _ => .unknown

/-- Reads the use behind the name of a parameter between braces, and its first character. -/
def openUse (d : Draft) (name : String) (c : Option Char) : Reader Draft := do
  match c with
  | some ':' => return d.openBrace name (useOf (← nextJoined)) true
  | some '%' | some '#' =>
    let last ← nextJoined
    let isLongest := last == c
    if !isLongest then back last
    return d.openBrace name (.trim (c == some '#') isLongest) false
  | c =>
    if c == some '\x7d' then return d.put (.parameter name .plain false [])
    else return d.openBrace name (useOf c) false

/-- Reads a parameter between braces, from the character behind the opening one. -/
def readBraced (d : Draft) (c : Option Char) : Reader Draft := do
  let counted (d : Draft) (name : String) (c : Option Char) : Reader Draft := do
    back c
    return d.openBrace name (if c == some '\x7d' then .length else .unknown) false
  let broken (d : Draft) (c : Option Char) : Reader Draft := do
    back c
    return d.openBrace "" .unknown false
  match ← nameFrom? true c with
  | some (name, last) => d.openUse name last
  | none =>
    if c == some '\x7d' then broken d c
    else
      let second ← nextJoined
      if c == some '#' then
        match ← nameFrom? true second with
        | some (name, last) => counted d name last
        | none =>
          let third ← nextJoined
          if second == some '\x7d' || third != some '\x7d' then
            back third
            d.openUse "#" second
          else if second.any isSpecial then counted d (String.ofList second.toList) third
          else broken d third
      else if c.any isSpecial then d.openUse (String.ofList c.toList) second
      else broken d second

/-! ### Scripts in words -/

/-- Reads a script up to the bracket that closes it. -/
def readBracketed (inner : Inner) (d : Draft) : Reader Draft := do
  let awaited := (← get).awaited
  modify fun s => { s with awaited := [] }
  let script ← inner
  let s ← get
  set { s with awaited, isPutBack := false }
  if s.token != .operator ")" then throw (.unexpected s.token (some (.operator ")")))
  return d.put (.output script)

/-- The characters between backquotes. A backslash in front of a character that would have a meaning
is left out. -/
def backquoted (isDouble : Bool) : Reader (List Char) :=
  Reader.iterate (fun (taken : List Char) => do
    match ← nextJoined with
    | none => throw .openBackquote
    | some '\x60' => return .inr taken.reverse
    | some '\\' =>
      let c ← next
      let isHidden := c == some '\\' || c == some '\x60' || c == some '$' ||
        (isDouble && c == some '"')
      return .inl (c.toList ++ if isHidden then taken else '\\' :: taken)
    | some c =>
      if c == '\n' then countLine
      return .inl (c :: taken)) stepLimit []

/-- Reads a script between backquotes, which has lines of its own. -/
def readBackquoted (inner : Inner) (d : Draft) : Reader Draft := do
  let text ← backquoted d.context.isDouble
  let before ← get
  set { before with
    text, line := 1, layers := [], lingering := [], awaited := [], isAsked := false }
  let script ← inner
  modify fun s => { s with
    text := before.text
    line := before.line
    layers := before.layers
    lingering := before.lingering
    awaited := before.awaited
    isAsked := before.isAsked
    isPutBack := false }
  return d.put (.output script)

/-- Reads what a dollar sign starts. -/
def readDollar (inner : Inner) (d : Draft) : Reader Draft := do
  let c ← nextJoined
  let isMark := (← get).expected.isMark
  let isStart := c.any fun c => c == '(' || c == '\x7b' || isNameStart c || c.isDigit || isSpecial c
  if isMark || !isStart then
    back c
    return d.putChar '$'
  else if c == some '(' then
    let second ← nextJoined
    if second == some '(' then
      return (d.enter { mode := .expression, isDouble := true }).openPart .expression
    else
      back second
      d.readBracketed inner
  else if c == some '\x7b' then d.readBraced (← nextJoined)
  else
    match ← nameFrom? false c with
    | some (name, last) =>
      back last
      return d.put (.parameter name .plain false [])
    | none => return d.put (.parameter (String.ofList c.toList) .plain false [])

/-! ### Characters -/

/-- Whether a character ends a word. -/
def isStop (c : Char) : Bool :=
  isBlank c || c == '\n' || c == '<' || c == '>' || c == '(' || c == ')' || c == ';' ||
    c == '&' || c == '|'

/-- Compares a line with the mark that ends a text, from a character that has been taken; `taken` are
those before it, the last first. What does not fit is put back, but for its first character. -/
def passMark (taken : List Char) : List Char → Option Char → Reader (Option Char)
  | m :: rest, c =>
    if c == some m then do passMark (m :: taken) rest (← next)
    else giveBack c
  | [], c => do
    if c == some '\n' || c.isNone then
      countLast
      return none
    else giveBack c
where
  giveBack (c : Option Char) : Reader (Option Char) :=
    match taken.reverse ++ c.toList with
    | [] => return none
    | first :: rest => do
      putBack rest
      return some first

/-- The first character of a line, nothing behind the end of a text. -/
def startLine (goal : Goal) (c : Option Char) : Reader (Option Char) :=
  match goal with
  | .text (some mark) dropsTabs => do
    let c ← if !dropsTabs then pure c else
      Reader.iterate (fun c => do
        if c == some '\t' then return .inl (← next) else return .inr c) stepLimit c
    passMark [] mark c
  | _ => return c

/-- What becomes of a draft with one more character: more of it and another character, or the end in
front of the character. -/
def take (inner : Inner) (goal : Goal) (d : Draft) (c : Option Char) :
    Reader ((Draft × Option Char) ⊕ (Draft × Option Char)) := do
  let goOn (d : Draft) : Reader ((Draft × Option Char) ⊕ (Draft × Option Char)) := do
    return .inl (d, ← if d.context.mode = .single then next else nextJoined)
  match c with
  | none => return .inr (d, none)
  | some '\n' =>
    if d.context.mode = .plain && d.context.braces == 0 then return .inr (d, c)
    else
      countLine
      return .inl (d.putChar '\n', ← startLine goal (← next))
  | some c =>
    match d.context.mode with
    | .single => goOn (if c == '\'' then d.closeQuote goal c else d.putChar c)
    | mode =>
      if c == '\\' then goOn (← d.passBackslash goal)
      else if c == '$' then goOn (← d.readDollar inner)
      else if c == '\x7d' then goOn d.closeBrace
      else if c == '\x60' then
        if (← get).expected.isMark then goOn { d.putChar c with isQuoted := true }
        else goOn (← d.readBackquoted inner)
      else
        match mode with
        | .plain =>
          if c == '\'' || c == '"' then goOn (d.openQuote goal c)
          else if isStop c && d.context.braces == 0 then return .inr (d, some c)
          else goOn (d.putChar c)
        | .double => goOn (if c == '"' then d.closeQuote goal c else d.putChar c)
        | _ =>
          if c == '(' then
            goOn ((d.inContext fun x => { x with brackets := x.brackets + 1 }).putChar c)
          else if c == ')' then goOn (← d.closeBracket)
          else goOn (d.putChar c)

/-- Refuses a draft in which something is open. -/
def checkClosed (d : Draft) (goal : Goal) : Reader Unit := do
  if d.context.mode = .expression then throw .openExpression
  if d.context.mode != .plain && !goal.isText then throw .openQuote
  if d.context.braces != 0 then throw .openBrace

end Draft

/-- Reads a word or a text from its first character, which has been taken, and the character behind
it. -/
def readDraft (inner : Inner) (goal : Goal) (context : Context) (first : Option Char) :
    Reader (Draft × Option Char) := do
  let first ← Draft.startLine goal first
  let (d, last) ← Reader.iterate (fun (d, c) => Draft.take inner goal d c) stepLimit
    ({ context : Draft }, first)
  d.checkClosed goal
  return (d, last)

/-- Makes a draft the last word that has been read. -/
def setWord (d : Draft) : Reader Unit :=
  modify fun s => { s with word := d.parts.reverse, isQuoted := d.isQuoted, token := .word }

/-- Reads the texts that have been announced. -/
def readPassages (inner : Inner) : Reader Unit := do
  let awaited := (← get).awaited
  modify fun s => { s with awaited := [] }
  for a in awaited do
    askIfDue
    let context : Context := if a.isFixed then { mode := .single }
      else { mode := .double, isDouble := true }
    let first ← if a.isFixed then next else nextJoined
    let (d, _) ← readDraft inner (.text (some a.mark) a.dropsTabs) context first
    setWord d
    modify fun s => { s with
      passages := s.passages.setIfInBounds a.number ⟨d.parts.reverse, a.isFixed⟩ }

/-- Reads a text that is shown to somebody: in it everything is replaced as between double quotes. -/
def readPrompt (inner : Inner) : Reader Word := do
  let (d, _) ← readDraft inner (.text none false) { mode := .double, isDouble := true }
    (← nextJoined)
  return d.parts.reverse

/-! ### Tokens -/

/-- Reads a redirection, of which the sign has been taken; the word is missing. -/
def readSign (stream : Option Nat) (sign : Char) : Reader Unit := do
  let c ← nextJoined
  let setTo (r : Redirection) : Reader Unit := modify fun s => { s with redirection := r }
  if sign == '>' then
    let stream := stream.getD 1
    match c with
    | some '>' => setTo (.file stream .append [])
    | some '|' => setTo (.file stream .replace [])
    | some '&' => setTo (.copyNamed stream [])
    | c => back c; setTo (.file stream .write [])
  else
    let stream := stream.getD 0
    match c with
    | some '<' =>
      let c ← nextJoined
      if c != some '-' then back c
      let number := (← get).passages.size
      modify fun s => { s with
        redirection := .passage stream number
        passages := s.passages.push {}
        awaited := s.awaited ++ [⟨number, [], false, c == some '-'⟩] }
    | some '&' => setTo (.copyNamed stream [])
    | some '>' => setTo (.file stream .both [])
    | c => back c; setTo (.file stream .read [])

/-- Reads a word or a redirection from its first character. -/
def readWord (inner : Inner) (first : Option Char) : Reader Token := do
  let (d, last) ← readDraft inner .word {} first
  let stream : Option (Option Nat) := match d.isQuoted, d.parts with
    | false, [] => some none
    | false, [.live c] => if c.isDigit then some (some (c.toNat - '0'.toNat)) else none
    | _, _ => none
  match stream, last with
  | some stream, some c =>
    if c == '<' || c == '>' then
      readSign stream c
      modify fun s => { s with token := .redirection }
      return .redirection
    else
      back last
      setWord d
      return .word
  | _, _ =>
    back last
    setWord d
    return .word

/-- Reads the next token, or the last one once more. -/
def nextToken (inner : Inner) : Reader Token := do
  let s ← get
  if s.isPutBack then
    set { s with isPutBack := false }
    return s.token
  askIfDue
  let found (t : Token) : Reader (Unit ⊕ Token) := do
    modify fun s => { s with token := t }
    return .inr t
  /- One of two operators, of which the second is the first character twice. -/
  let doubled (c : Char) : Reader (Unit ⊕ Token) := do
    let d ← nextJoined
    if d == some c then found (.operator (String.ofList [c, c]))
    else
      back d
      found (.operator (String.ofList [c]))
  Reader.iterate (fun (_ : Unit) => do
    match ← nextJoined with
    | none => found .ending
    | some c =>
      if isBlank c then return .inl ()
      else if c == '#' then
        back (← Reader.iterate (fun (_ : Unit) => do
          let c ← next
          return if c.isNone || c == some '\n' then .inr c else .inl ()) stepLimit ())
        return .inl ()
      else if c == '\n' then
        countLast
        found .newline
      else if c == '&' || c == '|' || c == ';' then doubled c
      else if c == '(' || c == ')' then found (.operator (String.ofList [c]))
      else return .inr (← readWord inner (some c))) stepLimit ()

/-- Reads the next token as the source expects it: ends of lines may be passed over, and a word may
be a keyword or an alias. -/
def readToken (inner : Inner) : Reader Token := do
  let expected := (← get).expected
  let t ← Reader.iterate (fun (_ : Unit) => do
    let t ← nextToken inner
    let t ← if !expected.skipsLines then pure t else
      Reader.iterate (fun (t : Token) => do
        if t = .newline then
          readPassages inner
          return .inl (← nextToken inner)
        else return .inr t) stepLimit t
    let s ← get
    match t, s.isQuoted, Word.plainText? s.word with
    | .word, false, some text =>
      if expected.keywords && Token.keywords.contains text then
        set { s with token := .keyword text }
        return .inr (.keyword text)
      else
        match if s.expected.aliases then s.alias? text else none with
        | some other =>
          expand text other
          return .inl ()
        | none => return .inr t
    | _, _, _ => return .inr t) stepLimit ()
  modify fun s => { s with expected := {} }
  return t

end ContainerCommand.Shell
