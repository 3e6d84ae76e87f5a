import ContainerCommand.Document

/-! The tree that the lines of a document build.

A table comes into being because it is written, because a header names one below it, or
because a dotted key does (`TableOrigin`). Only a table of the second kind may still be
written, and only tables of the last two kinds may be extended by dotted keys. An
array of tables is extended through its last table. -/
namespace ContainerCommand.Toml

/-- How a table has come into being. -/
inductive TableOrigin where
  | written
  | header
  | dotted
deriving DecidableEq

/-- A part of a document that is being built. Of an array of tables the last comes first. -/
inductive Node where
  | closed (doc : Document)
  | table (origin : TableOrigin) (entries : List (String × Node))
  | tables (items : List (List (String × Node)))

abbrev Entries : Type := List (String × Node)

/-- A value under a key, below the tables that the keys in front of it name. -/
structure Assignment where
  path : List String
  key : String
  value : Document

namespace Entries

/-- The entries with another node for a key that they have. -/
def replace (entries : Entries) (key : String) (node : Node) : Entries :=
  entries.map fun entry => if entry.1 == key then (key, node) else entry

/-- The entries with a node for a key that they do not have. -/
def add? (entries : Entries) (key : String) (node : Node) : Option Entries :=
  match entries.lookup key with
  | some _ => none
  | none => some (entries ++ [(key, node)])

/-- Changes the table at the end of a path. Tables that are missing on the way are made; a dotted
key does not lead through a table that is written. -/
def modify? (isDotted : Bool) (change : TableOrigin → Entries → Option Entries) :
    List String → TableOrigin → Entries → Option Entries
  | [], origin, entries => change origin entries
  | key :: path, _, entries =>
    match entries.lookup key with
    | none => do
      let origin := if isDotted then TableOrigin.dotted else .header
      let inner ← modify? isDotted change path origin []
      return entries ++ [(key, .table origin inner)]
    | some (.table origin inner) => do
      if isDotted && origin == .written then none
      else
        let inner ← modify? isDotted change path origin inner
        return replace entries key (.table origin inner)
    | some (.tables (last :: others)) => do
      let last ← modify? isDotted change path .written last
      return replace entries key (.tables (last :: others))
    | some (.tables []) | some (.closed _) => none

/-- Puts a value under a key. A dotted key ends in a table that dotted keys have made. -/
def assign? (entries : Entries) (a : Assignment) : Option Entries :=
  let isDotted := !a.path.isEmpty
  modify? isDotted
    (fun origin inner =>
      if (origin == .dotted) != isDotted then none else inner.add? a.key (.closed a.value))
    a.path .written entries

def assignAll? (entries : Entries) (assignments : List Assignment) : Option Entries :=
  assignments.foldlM assign? entries

end Entries

/-- What a header announces. -/
inductive Header where
  | table (path : List String) (key : String)
  /-- One more table of an array. -/
  | item (path : List String) (key : String)

namespace Entries

/-- Adds what stands under a header. -/
def addSection? (entries : Entries) (header : Header) (assignments : List Assignment) :
    Option Entries :=
  match header with
  | .table path key =>
    modify? false
      (fun _ parent =>
        match parent.lookup key with
        | none => do return parent ++ [(key, .table .written (← assignAll? [] assignments))]
        | some (.table .header inner) => do
          return replace parent key (.table .written (← assignAll? inner assignments))
        | some _ => none)
      path .written entries
  | .item path key =>
    modify? false
      (fun _ parent =>
        match parent.lookup key with
        | none => do return parent ++ [(key, .tables [← assignAll? [] assignments])]
        | some (.tables items) => do
          return replace parent key (.tables ((← assignAll? [] assignments) :: items))
        | some _ => none)
      path .written entries

end Entries

mutual

/-- The finished part. -/
def Node.toDocument : Node → Document
  | .closed doc => doc
  | .table _ entries => .table (entryDocuments entries)
  | .tables items => .list (tableDocuments items).reverse

/-- The finished entries of a table. -/
def entryDocuments : List (String × Node) → List (String × Document)
  | [] => []
  | (key, node) :: rest => (key, node.toDocument) :: entryDocuments rest

/-- The finished tables of an array. -/
def tableDocuments : List (List (String × Node)) → List Document
  | [] => []
  | entries :: rest => .table (entryDocuments entries) :: tableDocuments rest

end

end ContainerCommand.Toml
