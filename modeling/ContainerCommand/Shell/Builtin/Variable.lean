import ContainerCommand.Shell.Builtin.Argument
import ContainerCommand.Shell.Field
import ContainerCommand.Shell.Quote

/-! The commands that deal in variables and arguments. -/
namespace ContainerCommand.Shell.Act

/-! ### Lists of variables -/

/-- A variable in a list, with what stands in front of it. -/
def variableLine (lead name : String) (v : Variable) : String :=
  let value := match v.value? with
    | some text => "=" ++ singleQuoted text
    | none => ""
  (if lead.isEmpty then "" else lead ++ " ") ++ name ++ value ++ "\n"

/-- Lists some variables. -/
def listVariables (lead : String) (isMeant : Variable → Bool) : Act Unit := do
  for (name, v) in (← shell).vars.entries do
    if isMeant v then put (variableLine lead name v)

/-- Marks variables, and gives them values. Without names those that are marked are listed. -/
def markVariables (command : String) (args : List String) : Act Nat := do
  let isConstant := command == "readonly"
  let c ← choose "p" args
  if c.has 'p' || c.rest.isEmpty then
    listVariables command fun v => if isConstant then v.isConstant else v.isExported
    return 0
  for arg in c.rest do
    let (name, value) := splitAssignment arg
    match value, (← shell).vars.get? name with
    | none, some v =>
      let v := if isConstant then { v with isConstant } else { v with isExported := true }
      changeShell fun s => { s with vars := s.vars.insert name v }
    | value, _ =>
      checkName name
      setVariable name value (!isConstant) isConstant
  return 0

/-- Takes variables away, or functions. -/
def unsetNames (args : List String) : Act Nat := do
  let c ← choose "vf" args
  for arg in c.rest do
    if c.last? == some 'f' then
      changeShell fun s => { s with functions := s.functions.erase arg }
    else unassign (splitAssignment arg).1
  return 0

/-- Makes variables belong to the function that runs. -/
def makeLocals (args : List String) : Act Nat := do
  if (← shell).frames.isEmpty then fail "not in a function"
  args.forM fun arg => makeLocal arg false
  return 0

/-! ### Options and arguments -/

/-- The shell with other arguments, of which none has been read as an option. -/
def setArguments (args : List String) : Act Unit :=
  changeShell fun s => { s with args, optionPlace := {} }

/-- Takes note of new options. There is nobody to control jobs with. -/
def setOptions (options : Options) : Act Unit := do
  changeShell ({ · with options })
  if options.has "monitor" then
    complain "can't access tty; job control turned off"
    changeShell fun s => { s with options := s.options.set false "monitor" }

/-- Sets options and arguments, or lists the variables. -/
def setCommand (args : List String) : Act Nat := do
  if args.isEmpty then listVariables "" (·.value?.isSome)
  else
    match Settings.ofArguments false (← shell).options args with
    | .error fault => fail fault.message
    | .ok settings =>
      settings.lines.forM fun line => put (line ++ "\n")
      if !settings.rest.isEmpty || settings.isEnded then setArguments settings.rest
      setOptions settings.options
  return 0

/-- Drops arguments from the front. -/
def shiftArguments (args : List String) : Act Nat := do
  let count ← match args.head? with
    | some arg => number arg
    | none => pure 1
  let old := (← shell).args
  if old.length < count then fail "can't shift that many"
  setArguments (old.drop count)
  return 0

/-- What has been found when arguments are read as options. -/
inductive Reading where
  /-- There is no option any more. -/
  | ended
  | option (letter : Char) (text : String)
  | unknown (letter : Char)
  /-- The text is missing that belongs to an option. -/
  | bare (letter : Char)

/-- Reads the next option of some arguments, and gives the place behind it. -/
def readOption (known : List Char) (args : List String) (place : OptionPlace) :
    Reading × OptionPlace :=
  let left := match place.offset with
    | some offset =>
      if place.next ≤ 1 then [] else (args.getD (place.next - 2) "").toList.drop offset
    | none => []
  let word := (args.getD (place.next - 1) "").toList
  let (letters, next) := match left, word with
    | [], '-' :: c :: cs => (c :: cs, place.next + 1)
    | [], _ => ([], place.next)
    | left, _ => (left, place.next)
  match letters with
  | [] => (.ended, ⟨next, none⟩)
  | c :: rest =>
    let length := (args.getD (next - 2) "").length
    let behind : OptionPlace := ⟨next, some (length - rest.length)⟩
    if left.isEmpty && letters == ['-'] then (.ended, ⟨next, none⟩)
    else
      match Chosen.wantsText? c known, rest, args[next - 1]? with
      | none, _, _ => (.unknown c, behind)
      | some false, _, _ => (.option c "", behind)
      | some true, [], none => (.bare c, behind)
      | some true, [], some text => (.option c text, ⟨next + 1, none⟩)
      | some true, rest, _ => (.option c (String.ofList rest), ⟨next, none⟩)

/-- Reads the next option of the arguments into variables. A colon in front of the known letters asks
for silence about what is wrong. -/
def readOptions (args : List String) : Act Nat := do
  let (known, name, own) ← match args with
    | known :: name :: own => pure (known, name, own)
    | _ => fail "Usage: getopts optstring var [arg...]"
  let s ← shell
  let own := if own.isEmpty then s.args else own
  let place := if s.optionPlace.next = 0 || own.length + 1 < s.optionPlace.next then {}
    else s.optionPlace
  changeShell ({ · with optionPlace := ⟨0, none⟩ })
  let (reading, place) := readOption known.toList own place
  let isSilent := known.startsWith ":"
  let shown (letter : Char) : String := String.ofList [letter]
  let refuse (letter : Char) (text : String) : Act Unit := do
    if isSilent then setVariable "OPTARG" (some (shown letter))
    else
      say text
      setVariable "OPTARG" none
  let letter ← match reading with
    | .ended => pure '?'
    | .option letter text => do
      setVariable "OPTARG" (some text)
      pure letter
    | .unknown letter => do
      refuse letter ("Illegal option -" ++ shown letter ++ "\n")
      pure '?'
    | .bare letter => do
      refuse letter ("No arg for -" ++ shown letter ++ " option\n")
      pure (if isSilent then ':' else '?')
  setVariable "OPTIND" (some (toString place.next)) false false true
  checkName name
  setVariable name (some (shown letter))
  changeShell ({ · with optionPlace := place })
  return if reading matches .ended then 1 else 0

/-! ### Reading lines -/

/-- Adds characters to segments, to the last one if it is cut in the same places. -/
def addChar (segments : List Segment) (cut : Cut) (c : Char) : List Segment :=
  match segments with
  | last :: before =>
    if last.cut == cut then { last with glyphs := .live c :: last.glyphs } :: before
    else ⟨[.live c], cut⟩ :: segments
  | [] => [⟨[.live c], cut⟩]

/-- The segments of a line, the last first and each from its end, how many bytes it has with its end,
and whether it has one. A backslash takes the meaning from what follows it, and hides the end of a
line, unless lines are read as they are (`isRaw`). -/
def splitLine (isRaw : Bool) (count : Nat) (isBehind : Bool) (segments : List Segment) :
    List UInt8 → List Segment × Nat × Bool
  | [] => (segments, count, false)
  | b :: rest =>
    let c := Char.ofNat b.toNat
    if b = 0 then splitLine isRaw (count + 1) isBehind segments rest
    else if isBehind then
      let segments := if c == '\n' then ⟨[], .nowhere⟩ :: segments
        else addChar segments .nowhere c
      splitLine isRaw (count + 1) false segments rest
    else if c == '\\' && !isRaw then splitLine isRaw (count + 1) true segments rest
    else if c == '\n' then (segments, count + 1, true)
    else splitLine isRaw (count + 1) false (addChar segments .fields c) rest

/-- Reads a line into variables; the last takes all that is left. -/
def readLineInto (breaks : List Char) (args : List String) : Act Nat := do
  let c ← choose "p:r" args
  if c.rest.isEmpty then fail "arg count"
  let s ← get
  let file := s.shell.file? 0
  let input := (file.map fun file => (s.world.rest file).toOption.getD []).getD []
  let (segments, count, hasEnd) := splitLine (c.has 'r') 0 false [] input
  match file with
  | some file => changeWorld (·.advance file count (!hasEnd))
  | none => pure ()
  let segments := segments.reverse.map fun s => { s with glyphs := s.glyphs.reverse }
  let fields := (fieldsOf breaks (some c.rest.length) segments).map Glyph.text
  for (name, i) in c.rest.zipIdx do
    checkName name
    setVariable name (some (fields.getD i ""))
  return if hasEnd then 0 else 1

end ContainerCommand.Shell.Act
