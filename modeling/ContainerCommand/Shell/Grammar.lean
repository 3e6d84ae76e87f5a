import ContainerCommand.Shell.Word

/-! Reading commands.

A script is read line by line: a line is read to its end, and run, before the next one is
looked at, since it may change what the next one means. Lists hold commands joined by `&&` and
`||`, those hold commands joined by bars, and a command may hold lists again. All readers are
made for one reader of lists and commands (`Self`), and are tied together at the end
(`readPart`). -/
namespace ContainerCommand.Shell
open Source

/-- A part of a script. -/
inductive Piece where
  /-- A list of at least one command, up to a token that ends it. -/
  | block
  /-- A list that may be empty, up to a token that ends it. -/
  | rest
  /-- A line. -/
  | line
  | command
deriving DecidableEq

namespace Grammar

/-- Reads a part of a script. -/
abbrev Self : Type := Piece → Reader Script

def read (self : Self) : Reader Token := readToken (self .rest)

def putBackToken : Reader Unit :=
  modify fun s => { s with isPutBack := true }

def expect (expected : Expected) : Reader Unit :=
  modify fun s => { s with expected }

/-- What may stand where a command starts, on a line of its own or not. -/
def atCommand (skipsLines : Bool) : Expected :=
  { aliases := true, keywords := true, skipsLines }

/-- Refuses the last token; only one other token may stand there, or several. -/
def refuse {α : Type} (expected : Option Token := none) : Reader α := do
  throw (.unexpected (← get).token expected)

/-- Reads a token that must be a given one. -/
def demand (self : Self) (t : Token) : Reader Unit := do
  if (← read self) != t then refuse (some t)

/-- Reads the words from here on. -/
def readWords (self : Self) : Reader (List Word) :=
  Reader.iterate (fun (words : List Word) => do
    if (← read self) = .word then return .inl ((← get).word :: words)
    else return .inr words.reverse) stepLimit []

/-! ### Redirections -/

/-- The stream that a word names, nothing for none. -/
def streamOf? (text : String) : Option (Option Nat) :=
  match text.toList with
  | ['-'] => some none
  | [c] => if c.isDigit then some (some (c.toNat - '0'.toNat)) else none
  | _ => none

/-- Reads the word of a redirection whose sign has been read. -/
def readTarget (self : Self) : Reader Redirection := do
  let r := (← get).redirection
  match r with
  | .passage _ _ => expect { isMark := true }
  | _ => pure ()
  if (← read self) != .word then refuse
  let s ← get
  match r with
  | .passage stream number =>
    let awaited := s.awaited.map fun a =>
      if a.number == number then { a with mark := Word.text s.word, isFixed := s.isQuoted } else a
    set { s with awaited }
    return .passage stream number
  | .file stream way _ => return .file stream way s.word
  | .copy stream _ | .copyNamed stream _ =>
    match (Word.plainText? s.word).bind streamOf? with
    | some other => return .copy stream other
    | none => return .copyNamed stream s.word

/-- Reads the redirections behind a command that ends with a keyword or a bracket. -/
def readTargets (self : Self) : Reader (List Redirection) :=
  Reader.iterate (fun (rs : List Redirection) => do
    if rs.isEmpty then expect (atCommand false)
    if (← read self) = .redirection then
      let r ← readTarget self
      return .inl (r :: rs)
    else
      putBackToken
      return .inr rs.reverse) stepLimit []

/-! ### Simple commands -/

/-- The commands that no function can be named like. -/
def specialCommands : List String :=
  [".", ":", "break", "continue", "eval", "exec", "exit", "export", "local", "readonly", "return",
    "set", "shift", "times", "trap", "unset"]

/-- What has been read of a simple command; the last first. -/
structure Simple where
  words : List Word := []
  assignments : List Word := []
  redirections : List Redirection := []

/-- Reads the definition of a function from the bracket behind its name. -/
def readFunction (self : Self) (name : Word) : Reader Script := do
  demand self (.operator ")")
  match Word.plainText? name with
  | some name =>
    if !isName name || specialCommands.contains name then throw .badFunction
    expect (atCommand true)
    return .define name (← self .command)
  | none => throw .badFunction

/-- Reads a simple command, or the definition of a function. Words count as aliases up to the first
that assigns nothing. -/
def readSimple (self : Self) : Reader Script := do
  let line := (← get).line
  Reader.iterate (fun (c : Simple) => do
    expect { aliases := c.words.isEmpty }
    match ← read self with
    | .word =>
      let w := (← get).word
      if c.words.isEmpty && Word.isAssignment w then
        return .inl { c with assignments := w :: c.assignments }
      else return .inl { c with words := w :: c.words }
    | .redirection =>
      let r ← readTarget self
      return .inl { c with redirections := r :: c.redirections }
    | t =>
      match t, c with
      | .operator "(", ⟨[name], [], []⟩ => return .inr (← readFunction self name)
      | _, _ =>
        putBackToken
        return .inr (.simple line c.words.reverse c.assignments.reverse c.redirections.reverse))
    stepLimit {}

/-! ### Commands that hold others -/

/-- Reads the condition and the body of a choice, and its alternatives. -/
def readChoice (self : Self) : Reader Script := do
  let readBranch : Reader (Script × Script) := do
    let condition ← self .block
    demand self (.keyword "then")
    return (condition, ← self .block)
  let first ← readBranch
  let branches ← Reader.iterate (fun (branches : List (Script × Script)) => do
    if (← read self) = .keyword "elif" then return .inl ((← readBranch) :: branches)
    else return .inr branches) stepLimit [first]
  let last ← if (← get).token = .keyword "else" then self .block else do
    putBackToken
    pure Script.nothing
  demand self (.keyword "fi")
  return branches.foldl (fun others (condition, body) => .choice condition body others) last

/-- Reads the body of a loop. -/
def readBody (self : Self) : Reader Script := do
  let body ← self .block
  demand self (.keyword "done")
  return body

def readLoop (self : Self) (isUntil : Bool) : Reader Script := do
  let condition ← self .block
  demand self (.keyword "do")
  return .loop isUntil condition (← readBody self)

/-- Reads a loop over words; without words it goes over the arguments. -/
def readEach (self : Self) (line : Nat) : Reader Script := do
  let isWord := (← read self) == .word
  let s ← get
  match Word.plainText? s.word with
  | none => throw .badVariable
  | some name =>
    if !isWord || s.isQuoted || !isName name then throw .badVariable
    expect (atCommand true)
    let values ← if (← read self) = .keyword "in" then do
        let values ← readWords self
        let t := (← get).token
        if t != .newline && t != .operator ";" then refuse
        pure values
      else do
        if (← get).token != .operator ";" then putBackToken
        pure [[.mark, .parameter "@" .plain false [], .mark]]
    expect (atCommand true)
    demand self (.keyword "do")
    return .each line name values (← readBody self)

/-- Reads the patterns of a case; the first token has been read. -/
def readPatterns (self : Self) : Reader (List Word) := do
  if (← get).token = .operator "(" then let _ ← read self
  let patterns ← Reader.iterate (fun (patterns : List Word) => do
    let patterns := (← get).word :: patterns
    if (← read self) = .operator "|" then
      let _ ← read self
      return .inl patterns
    else return .inr patterns.reverse) stepLimit []
  if (← get).token != .operator ")" then refuse (some (.operator ")"))
  return patterns

/-- Reads a choice by patterns. -/
def readSelect (self : Self) (line : Nat) : Reader Script := do
  if (← read self) != .word then refuse (some .word)
  let subject := (← get).word
  expect (atCommand true)
  demand self (.keyword "in")
  let nextCase : Reader Token := do
    expect { keywords := true, skipsLines := true }
    read self
  let _ ← nextCase
  let cases ← Reader.iterate (fun (cases : List (List Word × Script)) => do
    if (← get).token = .keyword "esac" then return .inr cases.reverse
    else
      let patterns ← readPatterns self
      let cases := (patterns, ← self .rest) :: cases
      let t ← nextCase
      if t = .operator ";;" then
        let _ ← nextCase
      else if t != .keyword "esac" then refuse (some (.operator ";;"))
      return .inl cases) stepLimit []
  return .select line subject cases

/-- Reads a command. -/
def readCommand (self : Self) : Reader Script := do
  let line := (← get).line
  let withTargets (body : Script) : Reader Script := do
    match body, ← readTargets self with
    | .apart line body _, rs => return .apart line body rs
    | body, [] => return body
    | body, rs => return .redirected line body rs
  match ← read self with
  | .keyword "if" => withTargets (← readChoice self)
  | .keyword "while" => withTargets (← readLoop self false)
  | .keyword "until" => withTargets (← readLoop self true)
  | .keyword "for" => withTargets (← readEach self line)
  | .keyword "case" => withTargets (← readSelect self line)
  | .keyword "\x7b" =>
    let body ← self .block
    demand self (.keyword "\x7d")
    withTargets body
  | .operator "(" =>
    let body ← self .block
    demand self (.operator ")")
    withTargets (.apart line body [])
  | .word | .redirection =>
    putBackToken
    readSimple self
  | _ => refuse

/-! ### Lists -/

/-- Reads commands joined by bars. -/
def readPipeline (self : Self) : Reader Script := do
  let isNegated := (← read self) == .keyword "!"
  if isNegated then expect (atCommand false) else putBackToken
  let first ← self .command
  let commands ← Reader.iterate (fun (commands : List Script) => do
    if (← read self) = .operator "|" then
      expect (atCommand true)
      return .inl ((← self .command) :: commands)
    else
      putBackToken
      return .inr commands.reverse) stepLimit [first]
  let body := match commands with
    | [command] => command
    | commands => .piped commands
  return if isNegated then .negated body else body

/-- Reads commands of which one decides about the next. -/
def readChain (self : Self) : Reader Script := do
  let first ← readPipeline self
  Reader.iterate (fun (first : Script) => do
    match ← read self with
    | .operator "&&" =>
      expect (atCommand true)
      return .inl (.both first (← readPipeline self))
    | .operator "||" =>
      expect (atCommand true)
      return .inl (.either first (← readPipeline self))
    | _ =>
      putBackToken
      return .inr first) stepLimit first

/-- A script that runs beside those that follow. -/
def setAside (line : Nat) : Script → Script
  | .redirected line body rs => .aside line body rs
  | body => .aside line body []

/-- Reads a list of commands. -/
def readList (self : Self) (piece : Piece) : Reader Script := do
  let isLine := piece == .line
  Reader.iterate (fun (before, mayEnd) => do
    expect (atCommand (!isLine))
    let t ← read self
    if t = .newline then
      readPassages (self .rest)
      return .inr before
    else if t = .ending then endAll before
    else
      putBackToken
      if mayEnd && !isLine && t.endsList then return .inr before
      else
        let line := (← get).line
        let command ← readChain self
        let t ← read self
        let all := Script.andThen before
          (if t = .operator "&" then setAside line command else command)
        if t = .ending then endAll all
        else if t = .newline then
          putBackToken
          return .inl (all, true)
        else if t = .operator "&" || t = .operator ";" then return .inl (all, true)
        else if isLine then refuse
        else
          putBackToken
          return .inr all) stepLimit (Script.nothing, piece == .rest)
where
  /-- Ends a list with the script. -/
  endAll {σ : Type} (all : Script) : Reader (σ ⊕ Script) := do
    readPassages (self .rest)
    modify fun s => { s with token := .ending, isPutBack := true }
    return .inr all

/-- Reads a part of a script with readers of the parts that it holds. -/
def readWith (self : Self) : Self
  | .command => readCommand self
  | piece => readList self piece

end Grammar

/-- Reads a part of a script that is not nested too deep. -/
def readPart : Nat → Grammar.Self
  | 0 => fun _ => throw .endless
  | depth + 1 => fun piece => Grammar.readWith (readPart depth) piece

/-- Reads the next line of a script with all that belongs to it, nothing at the end of the script. -/
def readLine : Reader (Option Script) := do
  modify fun s => { s with
    isPutBack := false, expected := {}, awaited := [], isDue := false, asked := [] }
  let script ← readPart stepLimit .line
  let s ← get
  return if script.isNothing && s.token = .ending then none else some script

end ContainerCommand.Shell
