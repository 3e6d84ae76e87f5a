import ContainerCommand.CompileError

/-! Mounts: which directories of the host the container sees, and where.

A rule takes a path below its host side to the same place below its container side,
by whole components. Of several rules the first that applies is used. Rules are
written as one text with a colon between the sides or as a pair of texts, and a pair
means what its joined text means. -/
namespace ContainerCommand

/-- A directory of the host and the place where the container sees it. -/
structure MountRule where
  host : String
  container : String
deriving DecidableEq

namespace MountRule

/-- The text that asks the container runtime for the mount. -/
def spec (rule : MountRule) : String :=
  rule.host ++ ":" ++ rule.container

/-- The rule that a text writes: neither side is empty, and the first colon parts them. -/
def parse (entry : String) : Except CompileError MountRule :=
  match entry.toList.takeWhile (· != ':'), entry.toList.dropWhile (· != ':') with
  | c :: host, _ :: d :: container =>
    .ok ⟨String.ofList (c :: host), String.ofList (d :: container)⟩
  | _, _ => .error (.malformedMount entry)

/-- Where the container sees a path of the host, if it lies below the rule's host side. -/
def translate? (rule : MountRule) (path : String) : Option String :=
  (Path.stripBase? rule.host.toList path.toList).map fun tail =>
    if tail.isEmpty then rule.container
    else String.ofList (Path.join rule.container.toList tail)

/-- The rules that texts write, in order; the first that is malformed is the error. -/
def parseAll (entries : List String) : Except CompileError (List MountRule) :=
  entries.mapM parse

end MountRule

/-- Where the container sees a path of the host: as the first rule that applies has it, and
unchanged if none does. -/
def translate (rules : List MountRule) (path : String) : String :=
  (rules.findSome? (·.translate? path)).getD path

/-- A mount as it is written. -/
inductive MountEntry where
  | joined (entry : String)
  | pair (host container : String)
deriving DecidableEq

namespace MountEntry

/-- The entry as one text. -/
def text : MountEntry → String
  | .joined entry => entry
  | .pair host container => host ++ ":" ++ container

def toRule (entry : MountEntry) : Except CompileError MountRule :=
  MountRule.parse entry.text

/-- The rules of entries, in order; the first that is malformed is the error. -/
def toRules (entries : List MountEntry) : Except CompileError (List MountRule) :=
  entries.mapM toRule

/-- The rules of pairs, in order; the first that is malformed is the error. -/
def rulesOfPairs (pairs : List (String × String)) : Except CompileError (List MountRule) :=
  pairs.mapM fun (host, container) => (pair host container).toRule

def ofDocument? : Document → Option MountEntry
  | .text entry => some (.joined entry)
  | .list [.text host, .text container] => some (.pair host container)
  | _ => none

def toDocument : MountEntry → Document
  | .joined entry => .text entry
  | .pair host container => .list [.text host, .text container]

end MountEntry

end ContainerCommand
