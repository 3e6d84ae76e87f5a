/-! Scripts, as they are run.

A script is made of commands, and a command of words. A word keeps apart what has a meaning of
its own (`Part.live`), what stands for itself (`Part.fixed`), where quotes were (`Part.mark`)
and what is replaced when the word is used. A text that a script holds for a command to read
stands elsewhere, since it is read after the command; a redirection knows it by its number. -/
namespace ContainerCommand.Shell

/-- What is made of the value of a parameter. -/
inductive Use where
  /-- The value itself. -/
  | plain
  /-- How many bytes it has. -/
  | length
  /-- Another word, if there is no value. -/
  | fallback
  /-- The same, and the word becomes the value. -/
  | assignment
  /-- A complaint, if there is no value. -/
  | refusal
  /-- Another word, if there is a value. -/
  | replacement
  /-- The value without a part at one of its ends. -/
  | trim (atStart isLongest : Bool)
  /-- Nothing that there is. -/
  | unknown
deriving DecidableEq

/-- How a redirection opens a file. -/
inductive Way where
  | read
  | write
  /-- Writes a file anew, also one that is to be kept. -/
  | replace
  | append
  | both
deriving DecidableEq

mutual

/-- A part of a word. -/
inductive Part where
  | live (c : Char)
  | fixed (c : Char)
  | mark
  /-- A parameter. An empty value may count as none; `other` is the word behind its name. -/
  | parameter (name : String) (use : Use) (countsEmpty : Bool) (other : List Part)
  | arithmetic (expression : List Part)
  /-- What a script writes. -/
  | output (script : Script)

/-- What is done with a stream while a command runs. -/
inductive Redirection where
  | file (stream : Nat) (way : Way) (path : List Part)
  /-- Makes the stream another one, or closes it. -/
  | copy (stream : Nat) (other : Option Nat)
  /-- The same with a stream that a word names. -/
  | copyNamed (stream : Nat) (other : List Part)
  /-- Reads a text of the script. -/
  | passage (stream number : Nat)

inductive Script where
  | nothing
  | simple (line : Nat) (words assignments : List (List Part)) (redirections : List Redirection)
  | piped (commands : List Script)
  | redirected (line : Nat) (body : Script) (redirections : List Redirection)
  /-- A script that a copy of the shell runs. -/
  | apart (line : Nat) (body : Script) (redirections : List Redirection)
  /-- A script that runs beside those that follow. -/
  | aside (line : Nat) (body : Script) (redirections : List Redirection)
  | both (first second : Script)
  | either (first second : Script)
  | sequence (first second : Script)
  | negated (body : Script)
  | choice (condition first second : Script)
  | loop (isUntil : Bool) (condition body : Script)
  /-- A loop over words. -/
  | each (line : Nat) (name : String) (values : List (List Part)) (body : Script)
  /-- The script behind the first pattern that a word matches. -/
  | select (line : Nat) (subject : List Part) (cases : List (List (List Part) × Script))
  | define (name : String) (body : Script)

end

instance : Inhabited Script := ⟨.nothing⟩

abbrev Word : Type := List Part

/-- A text in a script that a command reads. -/
structure Passage where
  text : Word := []
  /-- Whether nothing in it is replaced. -/
  isFixed : Bool := false

instance : Inhabited Passage := ⟨{}⟩

def Redirection.stream : Redirection → Nat
  | .file stream _ _ | .copy stream _ | .copyNamed stream _ | .passage stream _ => stream

namespace Script

def isNothing : Script → Bool
  | .nothing => true
  | _ => false

/-- Two scripts one behind the other. -/
def andThen (first second : Script) : Script :=
  if first.isNothing then second else .sequence first second

end Script

/-- Where a stream is to lead, when the words that say it have been expanded. -/
inductive Lead where
  | file (way : Way) (path : String)
  | copy (other : Option Nat)
  /-- To a text of the script, by its number. -/
  | passage (number : Nat)

/-! ### Names -/

def isBlank (c : Char) : Bool := c == ' ' || c == '\t'

def isNameStart (c : Char) : Bool := c.isAlpha || c == '_'

def isNameChar (c : Char) : Bool := c.isAlphanum || c == '_'

/-- Whether a text can name a variable. -/
def isName (text : String) : Bool :=
  match text.toList with
  | c :: rest => isNameStart c && rest.all isNameChar
  | [] => false

/-- The parameters that have one special character for a name. -/
def isSpecial (c : Char) : Bool :=
  c == '#' || c == '*' || c == '@' || c == '?' || c == '$' || c == '!' || c == '-'

namespace Word

/-- The text of a word in which nothing is quoted or replaced. -/
def plainText? (w : Word) : Option String :=
  (w.mapM fun (p : Part) => match p with
    | .live c => some c
    | _ => none).map String.ofList

/-- The characters that stand in a word. -/
def text (w : Word) : List Char :=
  w.filterMap fun
    | .live c | .fixed c => some c
    | _ => none

/-- Whether a word assigns to a variable: a name and an equals sign stand in front. -/
def isAssignment (w : Word) : Bool :=
  let rec go : Bool → List Part → Bool
    | isFirst, .live c :: rest =>
      if (if isFirst then isNameStart c else isNameChar c) then go false rest
      else !isFirst && c == '='
    | _, _ => false
  go true w

end Word

end ContainerCommand.Shell
