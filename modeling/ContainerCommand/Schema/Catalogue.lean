import ContainerCommand.Schema
import ContainerCommand.Table

/-! Catalogues: parameters with an index of their places.

A catalogue has its parameters twice: in the order in which they are declared, and by their names in
an index of the places at which they stand. Both come from one reading of the parameters
(`Catalogue.enter`), which ends at the first that is at fault or whose name has a place already. A
look-up takes the place from the index, and goes wrong if nothing stands there (`Catalogue.get?`).
Schemas have their parameters once, and search them instead (`Schema.get?`). -/
namespace ContainerCommand

/-- Parameters in the order in which they are declared, with an index. -/
structure Catalogue where
  params : List Parameter := []
  /-- The place of each parameter by its name. -/
  index : Table Nat := ∅

namespace Catalogue

/-- The index with the places of further parameters, the first of which stands at `place`. -/
def enter (place : Nat) (index : Table Nat) : List Parameter → Except CompileError (Table Nat)
  | [] => .ok index
  | p :: rest =>
    match p.fault? with
    | some fault => .error (.invalidSchema fault)
    | none =>
      match index.get? p.name with
      | some _ => .error (.invalidSchema (.duplicate p.name))
      | none => enter (place + 1) (index.insert p.name place) rest

/-- The catalogue of parameters, unless one is at fault or repeats the name of one before. -/
def ofList (params : List Parameter) : Except CompileError Catalogue := do
  let index ← enter 0 ∅ params
  return { params, index }

def empty : Catalogue := {}

def contains (catalogue : Catalogue) (name : String) : Bool :=
  catalogue.index.contains name

/-- The parameter of a name that has a place; `some none` if no parameter stands there. -/
def get? (catalogue : Catalogue) (name : String) : Option (Option Parameter) :=
  (catalogue.index.get? name).map (catalogue.params[·]?)

/-- Both catalogues in one, the second one's leading parameters behind the first one's. -/
def merge (base extension : Catalogue) : Except CompileError Catalogue := do
  let offset := Parameter.lastLead base.params
  let merged ← ofList (base.params ++ extension.params.map (·.shift offset))
  match merged.params.findSome? (·.dangling? merged.contains) with
  | some fault => .error (.invalidSchema fault)
  | none => return merged

end Catalogue

end ContainerCommand
