import ContainerCommand.Shell.Script
import ContainerCommand.Shell.Token

/-! What a script is read from.

A source is a text from which characters are taken. Where a word is an alias, the text that it
stands for is read first (`Source.expand`); when that is used up, reading goes on behind the
word. An alias is not replaced in its own text, nor in a word that starts there and ends behind
it: it stays in use until one more character has been taken.

Where somebody is asked for every line, a source notes at which places that has to be done within
a command (`Source.ask`). -/
namespace ContainerCommand.Shell

/-- What is read when the text of an alias is used up. -/
structure Layer where
  name : String
  /-- The last character of the alias. -/
  last : Char
  below : List Char
  /-- The aliases that were in use before. -/
  held : List String

/-- What counts in the token that is read next. -/
structure Expected where
  aliases : Bool := false
  keywords : Bool := false
  /-- Whether ends of lines in front of it are passed over. -/
  skipsLines : Bool := false
  /-- Whether it is the mark that ends a text, in which nothing is replaced. -/
  isMark : Bool := false

/-- A text that has been announced and starts on the next line. -/
structure Awaited where
  number : Nat
  /-- The line that ends it. -/
  mark : List Char
  isFixed : Bool
  /-- Whether tabs at the start of its lines are left out. -/
  dropsTabs : Bool

structure Source where
  text : List Char
  line : Nat := 1
  layers : List Layer := []
  /-- The aliases whose text has been used up, but not the word that ends it. -/
  lingering : List String := []
  aliases : List (String × String) := []
  expected : Expected := {}
  /-- The last token that has been read. -/
  token : Token := .ending
  /-- Whether that token is to be read once more. -/
  isPutBack : Bool := false
  /-- The last word that has been read. -/
  word : Word := []
  /-- Whether any of it is quoted. -/
  isQuoted : Bool := false
  /-- The last redirection that has been read, of which the word is missing. -/
  redirection : Redirection := .copy 0 none
  awaited : List Awaited := []
  passages : Array Passage := #[]
  /-- Whether somebody is asked for each line. -/
  isAsked : Bool := false
  /-- Whether that is to be done before more is read. -/
  isDue : Bool := false
  /-- How much was left when more of a command was asked for, the last first. -/
  asked : List Nat := []

/-- Reads from a source. -/
abbrev Reader : Type → Type := EStateM Fault Source

/-- The number of steps that anything in a shell may take. -/
def stepLimit : Nat := 1000000

/-- Repeats a step until it gives an answer. -/
@[specialize] def Reader.iterate {σ α : Type} (step : σ → Reader (σ ⊕ α)) : Nat → σ → Reader α
  | 0, _ => throw .endless
  | n + 1, s => do
    match ← step s with
    | .inl s => iterate step n s
    | .inr a => return a

namespace Source

/-- The source with layers that are not used up. A blank at the end of an alias makes the next word
count as one too. -/
def settle (s : Source) : List Layer → Source
  | [] => { s with layers := [] }
  | layer :: rest =>
    if s.text.isEmpty then
      settle { s with
        text := layer.below
        lingering := layer.name :: layer.held
        expected := { s.expected with aliases := s.expected.aliases || isBlank layer.last } } rest
    else { s with layers := layer :: rest }

/-- Whether the end of the source has been read, and is to be read once more. -/
def endsPutBack (s : Source) : Bool := s.isPutBack && s.token = .ending

/-- Takes a character, nothing at the end. -/
def next : Reader (Option Char) := do
  let s ← get
  let s := settle { s with lingering := [] } s.layers
  match s.text with
  | [] => set s; return none
  | c :: rest => set { s with text := rest }; return some c

/-- Puts characters back. -/
def putBack (cs : List Char) : Reader Unit :=
  modify fun s => { s with text := cs ++ s.text }

/-- Puts a character back, if one has been taken. -/
def back (c : Option Char) : Reader Unit :=
  putBack c.toList

/-- What has not been read yet. -/
def left (s : Source) : List Char :=
  match s.layers.getLast? with
  | some layer => layer.below
  | none => s.text

/-- Asks for more of a command. -/
def ask : Reader Unit :=
  modify fun s => if s.isAsked then { s with asked := s.left.length :: s.asked, isDue := false } else s

/-- Asks for more of a command if that is due. -/
def askIfDue : Reader Unit := do
  if (← get).isDue then ask

/-- Counts a line that ends a part of a command: more is asked for as soon as more is read. -/
def countLast : Reader Unit :=
  modify fun s => { s with line := s.line + 1, isDue := s.isAsked }

/-- Counts a line that goes on. -/
def countLine : Reader Unit := do
  modify fun s => { s with line := s.line + 1 }
  ask

/-- Takes a character behind ends of lines that a backslash hides. -/
def nextJoined : Reader (Option Char) :=
  Reader.iterate (fun _ => do
    let c ← next
    if c != some '\\' then return .inr c
    else
      let d ← next
      if d == some '\n' then
        countLine
        return .inl ()
      else
        back d
        return .inr c) stepLimit ()

/-- Takes characters as long as they are fit, behind some that have been taken; the first that is not
fit has been taken too. -/
def nextWhile (fits : Char → Bool) (taken : List Char) :
    Reader (List Char × Option Char) :=
  Reader.iterate (fun taken => do
    match ← nextJoined with
    | some c => return if fits c then .inl (c :: taken) else .inr (taken.reverse, some c)
    | none => return .inr (taken.reverse, none)) stepLimit taken.reverse

/-- The text that a word stands for as an alias, unless that is being read. -/
def alias? (s : Source) (name : String) : Option String :=
  if s.lingering.contains name || s.layers.any fun l => l.name == name || l.held.contains name then
    none
  else s.aliases.lookup name

/-- Reads the text of an alias before all that follows. -/
def expand (name text : String) : Reader Unit :=
  match text.toList.getLast? with
  | none => pure ()
  | some last => modify fun s => { s with
      text := text.toList
      layers := ⟨name, last, s.text, s.lingering⟩ :: s.layers
      lingering := [] }

end Source

end ContainerCommand.Shell
