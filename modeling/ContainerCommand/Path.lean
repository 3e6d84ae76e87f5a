/-! Paths as text.

A path is compared by its components: repeated and closing separators do not count,
nor do single dots except at the very front, and two dots are a component like any
other. Cutting components off keeps the spelling of what remains: the parts between
separators that are no component (`isIdle`) are dropped only at the two ends. -/
namespace ContainerCommand.Path

/-- A part of a path that counts when paths are compared. -/
inductive Component where
  | root
  | current
  | parent
  | normal (name : List Char)
deriving DecidableEq

/-- The parts of a text between separators. -/
def segments : List Char → List (List Char)
  | [] => [[]]
  | c :: rest =>
    if c = '/' then [] :: segments rest
    else match segments rest with
      | [] => [[c]]
      | segment :: others => (c :: segment) :: others

/-- The text with the given parts between separators. -/
def ofSegments : List (List Char) → List Char
  | [] => []
  | [segment] => segment
  | segment :: others => segment ++ '/' :: ofSegments others

/-- The parts that are no component: nothing, and a single dot. -/
def isIdle (segment : List Char) : Bool :=
  segment.isEmpty || segment == ['.']

/-- The component that a part is. -/
def component (segment : List Char) : Component :=
  if segment = ['.', '.'] then .parent else .normal segment

/-- The front of a path that is a component by its place alone, and the text behind it. -/
def splitLead : List Char → List Char × List Char
  | '/' :: rest => (['/'], rest)
  | ['.'] => (['.'], [])
  | '.' :: '/' :: rest => (['.'], '/' :: rest)
  | path => ([], path)

/-- The component at the front of a path. -/
def leadComponent (lead : List Char) : List Component :=
  if lead = ['/'] then [.root] else if lead = ['.'] then [.current] else []

/-- The components of a path. -/
def components (path : List Char) : List Component :=
  let (lead, rest) := splitLead path
  leadComponent lead ++ ((segments rest).filter (!isIdle ·)).map component

/-! ### Cutting paths -/

/-- The parts without idle ones at the end. -/
def dropIdleEnd (parts : List (List Char)) : List (List Char) :=
  (parts.reverse.dropWhile isIdle).reverse

/-- What stands behind the first `n` components of a text without a lead. -/
def dropComponents : Nat → List (List Char) → List (List Char)
  | 0, parts => parts.dropWhile isIdle
  | n + 1, parts =>
    match parts.dropWhile isIdle with
    | [] => []
    | _ :: rest => dropComponents n rest

/-- The text behind the first `n` components. -/
def textBehind (n : Nat) (path : List Char) : List Char :=
  let (lead, rest) := splitLead path
  if n = 0 then lead ++ ofSegments (dropIdleEnd (segments rest))
  else
    ofSegments (dropIdleEnd (dropComponents (n - (leadComponent lead).length) (segments rest)))

/-- What is left of a path that lies under a base, nothing if it does not. -/
def stripBase? (base path : List Char) : Option (List Char) :=
  if (components base).isPrefixOf (components path) then
    some (textBehind (components base).length path)
  else none

/-- A path continued by another; one that starts at the root replaces it. -/
def join (path tail : List Char) : List Char :=
  if tail.head? = some '/' then tail
  else if path.isEmpty || path.getLast? = some '/' then path ++ tail
  else path ++ '/' :: tail

/-! ### The last component -/

/-- The name that a path ends in. -/
def fileName? (path : List Char) : Option (List Char) :=
  match (components path).getLast? with
  | some (.normal name) => some name
  | _ => none

/-- A name without its last extension. A dot at the front starts no extension. -/
def stemOfName (name : List Char) : List Char :=
  match name.reverse.dropWhile (· != '.') with
  | [] => name
  | [_] => name
  | _ :: before => before.reverse

/-- The name that a path ends in without its extension, empty if there is none. -/
def stem (path : List Char) : List Char :=
  match fileName? path with
  | some name => stemOfName name
  | none => []

/-- The path without its last component; the root and the empty path have none. -/
def parent? (path : List Char) : Option (List Char) :=
  match (components path).getLast? with
  | none | some .root => none
  | some .current => some []
  | some _ =>
    let (lead, rest) := splitLead path
    some (lead ++ ofSegments (dropIdleEnd (dropIdleEnd (segments rest)).dropLast))

/-- The path with another extension; a path that ends in no name stays as it is. -/
def withExtension (path extension : List Char) : List Char :=
  match fileName? path with
  | none => path
  | some name =>
    let (lead, rest) := splitLead path
    let parts := dropIdleEnd (segments rest)
    lead ++ ofSegments (parts.dropLast ++ [stemOfName name ++ '.' :: extension])

/-- Whether two texts spell the same path. -/
def same (p q : List Char) : Bool :=
  components p == components q

end ContainerCommand.Path
