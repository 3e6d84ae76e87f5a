import ContainerCommand.CompileError
import ContainerCommand.Text.Blank

/-! Argument templates.

A template is a list of words, of which at most one holds a placeholder. Three dots
at its end have it repeated for each element of a list, and a `>` in front of its
first word makes it a redirection. A template with a placeholder is kept cut open
there, so that filling it in is putting a text between two others: a value never adds
or removes a word (`length_fill`). -/
namespace ContainerCommand.Template
open Number

/-- The words of a template. -/
inductive Body where
  /-- Words that are shown as they are. -/
  | literal (words : List String)
  /-- Words around one that consists of a placeholder between two texts. -/
  | slotted (front : List String) (pre : String) (conversion : Conversion) (post : String)
      (back : List String)
deriving DecidableEq

namespace Body

/-- The words with a text in place of the placeholder. -/
def fill : Body → String → List String
  | .literal words, _ => words
  | .slotted front pre _ post back, text => front ++ (pre ++ text ++ post) :: back

/-- The placeholder of the words. -/
def conversion? : Body → Option Conversion
  | .literal _ => none
  | .slotted _ _ conversion _ _ => some conversion

/-- The words as they were written. -/
def words (body : Body) : List String :=
  body.fill (match body.conversion? with
    | some k => String.ofList k.placeholder
    | none => "")

/-- Cuts words open at the first placeholder. -/
def ofWords : List (List Char) → Body
  | [] => .literal []
  | word :: rest =>
    match split? word with
    | some (pre, k, post) =>
      .slotted [] (String.ofList pre) k (String.ofList post) (rest.map String.ofList)
    | none =>
      match ofWords rest with
      | .literal words => .literal (String.ofList word :: words)
      | .slotted front pre k post back => .slotted (String.ofList word :: front) pre k post back

theorem length_fill (body : Body) (text : String) :
    (body.fill text).length = body.words.length := by
  cases body <;> simp [words, fill, conversion?]

end Body

/-- How a template is shown and where its value goes. -/
structure Argument where
  /-- The template as it was written. -/
  raw : String
  body : Body
  /-- Whether the template is shown once for each element of a list. -/
  isRepeated : Bool
deriving DecidableEq

/-- A text without three dots at its end, and whether they were there. -/
def splitRepeat (cs : List Char) : List Char × Bool :=
  match cs.reverse with
  | '.' :: '.' :: '.' :: rest => (rest.reverse, true)
  | _ => (cs, false)

namespace Argument

def words (t : Argument) : List String := t.body.words

def hasPlaceholder (t : Argument) : Bool := t.body.conversion?.isSome

/-- Whether words are a redirection: the first one starts with `>`. -/
def startsRedirect (words : List (List Char)) : Bool :=
  (words.head?.bind List.head?) == some '>'

/-- Whether the template redirects the output of the command. -/
def isRedirect (t : Argument) : Bool :=
  startsRedirect (t.words.map String.toList)

/-- The template that a text writes. -/
def parse (raw : String) : Except CompileError Argument :=
  let (text, isRepeated) := splitRepeat (Text.trim raw.toList)
  let words := Text.words text
  let found := words.flatMap placeholders
  let refuse (fault : TemplateFault) : Except CompileError Argument :=
    .error (.invalidTemplate raw fault)
  if words.isEmpty then refuse .empty
  else if 1 < found.length then refuse .manyPlaceholders
  else if startsRedirect words && isRepeated then refuse .repeatedRedirection
  else if isRepeated && found.isEmpty then refuse .repeatedWithoutPlaceholder
  else .ok { raw, body := Body.ofWords words, isRepeated }

/-- The text of a value under a conversion. -/
def convert (conversion : Conversion) (value : Value) : Except ValueFault String :=
  match conversion, value with
  | .text, .list _ => .error .listAsText
  | .text, value => .ok value.display
  | .integer, .int n => .ok (Value.intText n)
  | .integer, .float x => .ok (Value.intText x.truncate)
  | .integer, .text s =>
    match readInteger? (Text.trim s.toList) with
    | some n => .ok (Value.intText n)
    | none => .error (.notInteger s)
  | .places, .int n => .ok (fixed 6 (Binary64.ofInt n))
  | .places, .float x => .ok (fixed 6 x)
  | .places, .text s =>
    match Binary64.read? (Text.trim s.toList) with
    | some x => .ok (fixed 6 x)
    | none => .error (.notNumber s)
  | conversion, value => .error (.unwritable value.tag conversion)

/-- The words of a template with a value in place of the placeholder; `name` is the parameter
that an error names. -/
def fill (t : Argument) (name : String) (value : Value) : Except CompileError (List String) :=
  match t.body.conversion? with
  | none => .ok t.words
  | some conversion =>
    match convert conversion value with
    | .ok text => .ok (t.body.fill text)
    | .error fault => .error (.invalidValue name fault)

/-- A value never adds or removes a word. -/
theorem length_fill {t : Argument} {name : String} {value : Value} {words : List String}
    (h : t.fill name value = .ok words) : words.length = t.words.length := by
  unfold fill at h
  split at h
  · cases h; rfl
  · split at h
    · cases h; exact t.body.length_fill _
    · cases h

end Argument

end ContainerCommand.Template
