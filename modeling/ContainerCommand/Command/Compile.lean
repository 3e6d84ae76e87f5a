import ContainerCommand.Command.Basic
import ContainerCommand.Mount
import ContainerCommand.Resolution.Walk

/-! Compilation: from a schema, inputs and mounts to a command.

The mounts become an input of their own, the parameters are resolved, the paths that
must exist are looked for on the host, and each parameter that is neither undefined
nor suppressed is shown by its template (`Parameter.tokens`). Tokens are shown in
declaration order, so that the first error is that of the first parameter, and put in
three buckets, which are sorted afterwards (`Buckets.tokens`). -/
namespace ContainerCommand

/-- The parameter that has the container runtime started with its debug word. -/
def debugName : String := "debug"

/-- The parameter that shows the mounts. -/
def mountsName : String := "bind_mounts"

/-! ### Order -/

/-- Tokens in three buckets, one for each group of parameters. Those of parameters with a position are
kept with it. -/
structure Buckets where
  leading : List (Int × Token) := []
  unordered : List Token := []
  trailing : List (Int × Token) := []

namespace Buckets

/-- Puts the tokens of a parameter behind those that its bucket has. -/
def add (buckets : Buckets) (p : Parameter) (tokens : List Token) : Buckets :=
  match p.position with
  | some n =>
    let placed := tokens.map fun token => (n, token)
    if 0 ≤ n then { buckets with leading := buckets.leading ++ placed }
    else { buckets with trailing := buckets.trailing ++ placed }
  | none => { buckets with unordered := buckets.unordered ++ tokens }

/-- The tokens of parameters, put in the buckets one parameter after the other. -/
def ofShown (shown : List (Parameter × List Token)) : Buckets :=
  shown.foldl (fun buckets entry => buckets.add entry.1 entry.2) {}

/-- Tokens by position. Those at one position keep their order. -/
def byPosition (placed : List (Int × Token)) : List Token :=
  (placed.mergeSort fun a b => a.1 ≤ b.1).map Prod.snd

/-- Tokens by the name of their parameter. Those of one name keep their order. -/
def byName (tokens : List Token) : List Token :=
  tokens.mergeSort fun a b => a.param ≤ b.param

/-- All tokens, bucket after bucket, each sorted by itself. -/
def tokens (buckets : Buckets) : List Token :=
  byPosition buckets.leading ++ byName buckets.unordered ++ byPosition buckets.trailing

end Buckets

/-- The tokens of parameters in order: leading ones by position, then unordered ones by name, then
trailing ones by position. -/
def arrange (shown : List (Parameter × List Token)) : List Token :=
  (Buckets.ofShown shown).tokens

/-! ### Showing a parameter -/

namespace Parameter

/-- The paths that a value names. -/
def elements (p : Parameter) : Value → Except CompileError (List String)
  | .list items => .ok items
  | .text s => .ok [s]
  | value => .error (.invalidValue p.name (.notPath value.tag))

/-- A path of the host as the parameter shows it. -/
def shownPath (p : Parameter) (rules : List MountRule) (host : String) : String :=
  if p.isContainerPath then translate rules host else host

/-- One showing of the template. -/
def token (p : Parameter) (t : Template.Argument) (value : Value) : Except CompileError Token := do
  let words ← t.fill p.name value
  return ⟨p.name, words, if t.isRedirect then .redirect value.display else .argument⟩

/-- The showings of the template for a value: none or one for a switch, one for a single value, and
one for each element of a list of paths. -/
def emit (p : Parameter) (rules : List MountRule) (t : Template.Argument) (value : Value) :
    Except CompileError (List Token) :=
  match p.kind with
  | .flag | .boolean =>
    .ok (if value = .bool true then [⟨p.name, t.words, .argument⟩] else [])
  | .scalar => do return [← p.token t value]
  | .path =>
    match value.text? with
    | some host => do return [← p.token t (.text (p.shownPath rules host))]
    | none => .error (.invalidValue p.name (.notPath value.tag))
  | .pathList => do
    (← p.elements value).mapM fun host => p.token t (.text (p.shownPath rules host))

/-- The tokens of a parameter: none if it has no value, is suppressed or has no template. -/
def tokens (p : Parameter) (rules : List MountRule) (resolution : Resolution) :
    Except CompileError (List Token) :=
  match resolution.get? p.name, p.argument with
  | some r, some t => if r.isSuppressed then .ok [] else p.emit rules t r.value
  | _, _ => .ok []

/-- Refuses a value that must exist on the host and does not. -/
def checkHost (p : Parameter) (isOnHost : String → Bool) (resolution : Resolution) :
    Except CompileError Unit :=
  match p.mustExist, resolution.value? p.name with
  | true, some value => do
    match (← p.elements value).find? (!isOnHost ·) with
    | some path => .error (.hostPathNotFound p.name path)
    | none => .ok ()
  | _, _ => .ok ()

end Parameter

/-! ### Mounts -/

/-- The rules that an input for the mounts gives. -/
def rulesOfInput : Value → Except CompileError (List MountRule)
  | .list entries => MountRule.parseAll entries
  | .text entry => MountRule.parseAll [entry]
  | value => .error (.invalidValue mountsName (.notMounts value.tag))

namespace Schema

/-- The rules in use: the given ones, or if there are none those of the input for the mounts. -/
def effectiveRules (schema : Schema) (inputs : Inputs) (rules : List MountRule) :
    Except CompileError (List MountRule) :=
  match inputs.get? mountsName with
  | some value =>
    if rules.isEmpty && schema.contains mountsName then rulesOfInput value else .ok rules
  | none => .ok rules

/-- The inputs with the rules in use as the input for the mounts. -/
def effectiveInputs (schema : Schema) (inputs : Inputs) (rules : List MountRule) : Inputs :=
  if !rules.isEmpty && schema.contains mountsName then
    inputs.insert mountsName (.list (rules.map MountRule.spec))
  else inputs

/-- The command of a schema; `isOnHost` says which paths exist on the host. -/
def compile (schema : Schema) (launcher : Launcher) (isOnHost : String → Bool) (inputs : Inputs)
    (rules : List MountRule) : Except CompileError Command := do
  let rules ← schema.effectiveRules inputs rules
  let resolved ← schema.resolve (schema.effectiveInputs inputs rules)
  schema.params.forM fun p => p.checkHost isOnHost resolved
  let shown ← schema.params.mapM fun p => return (p, ← p.tokens rules resolved)
  return {
    launch := launcher.words (resolved.isTruthy debugName)
    tokens := arrange shown
    resolved }

end Schema

end ContainerCommand
