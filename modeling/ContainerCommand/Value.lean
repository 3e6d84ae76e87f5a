import ContainerCommand.Document
import ContainerCommand.Number.Layout
import ContainerCommand.Path

/-! Values of parameters.

A value is given by the caller or derived from another one. Its text is what a
template shows, its truth decides whether parameters that require it are shown at
all, and the stem of a path is what derived names are made of. -/
namespace ContainerCommand
open Number

/-- A value of a parameter. -/
inductive Value where
  | bool (b : Bool)
  /-- An integer within the range of a signed word. -/
  | int (n : Int)
  | float (x : Binary64)
  | text (s : String)
  | list (items : List String)
deriving DecidableEq

namespace Value

/-- The kinds of values, as messages name them. -/
inductive Tag where
  | bool
  | int
  | float
  | string
  | list
deriving DecidableEq

namespace Tag

def label : Tag → String
  | .bool => "bool"
  | .int => "int"
  | .float => "float"
  | .string => "string"
  | .list => "list"

end Tag

def tag : Value → Tag
  | .bool _ => .bool
  | .int _ => .int
  | .float _ => .float
  | .text _ => .string
  | .list _ => .list

/-- False, the zeros, the empty text and the empty list are false; all else is true, also
what is no number. -/
def isTruthy : Value → Bool
  | .bool b => b
  | .int n => n != 0
  | .float x => !x.isZero
  | .text s => !s.isEmpty
  | .list items => !items.isEmpty

def bool? : Value → Option Bool
  | .bool b => some b
  | _ => none

def text? : Value → Option String
  | .text s => some s
  | _ => none

/-- The decimal text of an integer. -/
def intText (n : Int) : String :=
  (Numeral.ofInt n).text

/-- Numbers that are not whole are written with their shortest digits and never an exponent. -/
def layout : Layout :=
  { isPositional := fun _ => true, pointZero := true, tie := .up }

/-- The text of a floating-point number: all digits and one place if it is whole, else the
shortest digits that read back. -/
def floatText (x : Binary64) : String :=
  match x.datum with
  | .finite negative mantissa exponent =>
    match Binary64.wholeMagnitude? mantissa exponent with
    | some _ => (fixedNumeral 1 negative mantissa exponent).text
    | none => layout.write x
  | _ => layout.write x

/-- The text of a value. -/
def display : Value → String
  | .bool b => if b then "true" else "false"
  | .int n => intText n
  | .float x => floatText x
  | .text s => s
  | .list items => " ".intercalate items

/-- The value that an integer of a document is. Beyond the signed words it is a float, and beyond
the unsigned ones there is none. -/
def ofInt? (n : Int) : Option Value :=
  if fitsWord n then some (.int n)
  else if fitsUnsigned 64 n then some (.float (Binary64.ofInt n))
  else none

/-- The value that a document holds. -/
def ofDocument? : Document → Option Value
  | .bool b => some (.bool b)
  | .int n => ofInt? n
  | .float x => some (.float x)
  | .text s => some (.text s)
  | .list items => (Document.texts? (.list items)).map .list
  | _ => none

/-- A value as a document. -/
def toDocument : Value → Document
  | .bool b => .bool b
  | .int n => .int n
  | .float x => .float x
  | .text s => .text s
  | .list items => .list (items.map .text)

end Value

/-- The name at the end of a path without its extension. -/
def pathStem (path : String) : String :=
  String.ofList (Path.stem path.toList)

end ContainerCommand
