import ContainerCommand.Template.Argument
import ContainerCommand.Text.Utf8

/-! The slot of a template, counted in bytes.

Words that are kept as they are written are scanned for placeholders byte by byte (`scan`), and the
one that is found is the slot (`Argument.slot?`). Filling it takes what stands in front of the slot's
first byte and what stands behind its last one, which goes wrong at a place inside of a character
(`Slot.fill?`). Templates are kept cut open instead, and filled without counting bytes
(`Argument.fill`). -/
namespace ContainerCommand.Template

/-- The conversion that a byte behind a percent sign asks for. -/
def Conversion.ofByte? (b : UInt8) : Option Conversion :=
  if b = 0x73 then some .text else if b = 0x64 then some .integer
  else if b = 0x66 then some .places else none

/-- The placeholders among bytes, each with the place of its first byte; the bytes begin at
`place`. -/
def scan (place : Nat) : List UInt8 → List (Nat × Conversion)
  | [] => []
  | [_] => []
  | a :: b :: rest =>
    match if a = 0x25 then Conversion.ofByte? b else none with
    | some k => (place, k) :: scan (place + 2) rest
    | none => scan (place + 1) (b :: rest)

/-- Where a value goes: the number of a word, and the places of its first byte that belongs to the
placeholder and of the first one behind it. -/
structure Slot where
  word : Nat
  start : Nat
  stop : Nat
  conversion : Conversion
deriving DecidableEq

/-- The slots in words, the first of which has the number `n`. -/
def slots (n : Nat) : List String → List Slot
  | [] => []
  | word :: rest =>
    (scan 0 (Text.encode word)).map (fun (place, k) => ⟨n, place, place + 2, k⟩) ++
      slots (n + 1) rest

/-- The text in front of a place, if no character is cut there. -/
def upTo? (s : String) (place : Nat) : Option String :=
  if h : String.Pos.Raw.IsValid s ⟨place⟩ then some (s.sliceTo ⟨⟨place⟩, h⟩).copy else none

/-- The text from a place on, if no character is cut there. -/
def from? (s : String) (place : Nat) : Option String :=
  if h : String.Pos.Raw.IsValid s ⟨place⟩ then some (s.sliceFrom ⟨⟨place⟩, h⟩).copy else none

/-- The words with a text in the slot, if it can be cut out. -/
def Slot.fill? (slot : Slot) (words : List String) (text : String) : Option (List String) := do
  let word ← words[slot.word]?
  let front ← upTo? word slot.start
  let back ← from? word slot.stop
  return words.set slot.word (front ++ text ++ back)

namespace Argument

/-- The slot of a template with one placeholder. -/
def slot? (t : Argument) : Option Slot :=
  (slots 0 t.words).head?

/-- The words with a value in the slot, if it can be cut out; `name` is the parameter that an error
names. -/
def fillSlot? (t : Argument) (name : String) (value : Value) :
    Option (Except CompileError (List String)) :=
  match t.slot? with
  | none => some (.ok t.words)
  | some slot =>
    match convert slot.conversion value with
    | .ok text => (slot.fill? t.words text).map .ok
    | .error fault => some (.error (.invalidValue name fault))

end Argument

end ContainerCommand.Template
