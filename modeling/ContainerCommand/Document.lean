import ContainerCommand.Number.Binary64

/-! Documents: what a text in one of the two notations holds.

Task files and configurations are read from one notation, parameters and values also
from another; both give the same tree. A record is taken out of a tree by the names of
its fields (`record?`): from a table by name, and from a list by position, which the
two notations treat differently only where a list is too long. -/
namespace ContainerCommand
open Number

/-- A tree of tables, lists and single values. -/
inductive Document where
  | null
  | bool (b : Bool)
  | int (n : Int)
  | float (x : Binary64)
  | text (s : String)
  /-- A date, a time or both, in its normal form. -/
  | moment (s : String)
  | list (items : List Document)
  /-- The entries of a table in the order in which they are written. -/
  | table (entries : List (String × Document))

namespace Document

/-- The notation that a document was written in. -/
inductive Format where
  | json
  | toml
deriving DecidableEq

/-- The name of the single entry that a moment has when it is read as a table. -/
def momentKey : String := "$__toml_private_datetime"

/-- The entries of a table. -/
def entries? : Document → Option (List (String × Document))
  | .table entries => some entries
  | .moment s => some [(momentKey, .text s)]
  | _ => none

def items? : Document → Option (List Document)
  | .list items => some items
  | _ => none

def text? : Document → Option String
  | .text s => some s
  | _ => none

def bool? : Document → Option Bool
  | .bool b => some b
  | _ => none

def int? : Document → Option Int
  | .int n => some n
  | _ => none

/-- The texts of a list that holds nothing else. -/
def texts? : Document → Option (List String)
  | .list items => items.mapM text?
  | _ => none

/-- The first entry of a name. -/
def find? (entries : List (String × Document)) (name : String) : Option Document :=
  (entries.find? fun entry => entry.1 == name).map Prod.snd

/-- Whether a name is given more than once. -/
def isRepeated (entries : List (String × Document)) (name : String) : Bool :=
  1 < entries.countP fun entry => entry.1 == name

/-- The fields of a record, looked up by name. A table must not repeat one of the names, and a
list gives the fields by position. -/
def record? (format : Format) (names : List String) : Document → Option (String → Option Document)
  | .list items =>
    if format == .json && names.length < items.length then none
    else some fun name => items[names.idxOf name]?
  | doc => do
    let entries ← doc.entries?
    if names.any (isRepeated entries) then none else some (find? entries)

/-- A field that may be left out or be null. -/
def optional? {α : Type} (read : Document → Option α) : Option Document → Option (Option α)
  | none => some none
  | some .null => some none
  | some doc => (read doc).map some

/-- A field that may be left out and then has a default. -/
def defaulted? {α : Type} (read : Document → Option α) (fallback : α) :
    Option Document → Option α
  | none => some fallback
  | some doc => read doc

end Document

end ContainerCommand
