/-! The options of a shell.

An option has a name, and most have a letter. They are set behind a minus sign and taken
back behind a plus sign; the letter `o` takes a name from the arguments, or asks for a
list if there is none. -/
namespace ContainerCommand.Shell

/-- The names of the options that are set. -/
structure Options where
  names : List String := []

namespace Options

/-- The options that there are, in the order of a list of them. -/
def table : List (String × Option Char) :=
  [("errexit", some 'e'), ("noglob", some 'f'), ("ignoreeof", some 'I'), ("interactive", some 'i'),
    ("monitor", some 'm'), ("noexec", some 'n'), ("stdin", some 's'), ("xtrace", some 'x'),
    ("verbose", some 'v'), ("vi", some 'V'), ("emacs", some 'E'), ("noclobber", some 'C'),
    ("allexport", some 'a'), ("notify", some 'b'), ("nounset", some 'u'),
    ("privileged", some 'p'), ("nolog", none), ("debug", none)]

def has (o : Options) (name : String) : Bool := o.names.contains name

/-- Whether a command that fails ends the script. -/
def exitsOnFailure (o : Options) : Bool := o.has "errexit"

/-- Whether a parameter without a value ends the script. -/
def refusesUnset (o : Options) : Bool := o.has "nounset"

/-- Whether commands are shown before they run. -/
def traces (o : Options) : Bool := o.has "xtrace"

/-- Whether commands are read only. -/
def onlyReads (o : Options) : Bool := o.has "noexec"

/-- Whether patterns in words stay what they are. -/
def keepsPatterns (o : Options) : Bool := o.has "noglob"

/-- Whether a file that exists is not written anew. -/
def keepsFiles (o : Options) : Bool := o.has "noclobber"

/-- Whether every variable that is set is seen by programs. -/
def exportsAll (o : Options) : Bool := o.has "allexport"

/-- Whether somebody is asked for each command. -/
def asks (o : Options) : Bool := o.has "interactive"

/-- Sets an option or takes it back. -/
def set (o : Options) (value : Bool) (name : String) : Options :=
  let others := o.names.filter (· != name)
  ⟨if value then name :: others else others⟩

/-- Sets an option by its letter or takes it back. Of the two ways to edit lines, a letter that sets one
takes the other back. -/
def setLetter (o : Options) (value : Bool) (name : String) : Options :=
  let o := o.set value name
  if value && name == "vi" then o.set false "emacs"
  else if value && name == "emacs" then o.set false "vi"
  else o

/-- The letters of the options that are set. -/
def letters (o : Options) : String :=
  String.ofList ((table.reverse.filter fun e => o.has e.1).filterMap Prod.snd)

/-- The list of all options: what they are, or the commands that make them so. -/
def listing (o : Options) (isTable : Bool) : List String :=
  if isTable then
    "Current option settings" :: table.map fun (name, _) =>
      name ++ String.ofList (List.replicate (16 - name.length) ' ') ++
        if o.has name then "on" else "off"
  else table.map fun (name, _) => (if o.has name then "set -o " else "set +o ") ++ name

end Options

/-- Why options cannot be set. -/
inductive OptionFault where
  | letter (c : Char)
  | name (text : String)

def OptionFault.message : OptionFault → String
  | .letter c => "Illegal option -" ++ String.ofList [c]
  | .name text => "Illegal option -o " ++ text

/-- What has been read of some arguments. -/
structure Settings where
  options : Options
  /-- The arguments that are left. -/
  rest : List String
  /-- Whether the script is an argument. -/
  hasText : Bool := false
  /-- The lines that have been asked for. -/
  lines : List String := []
  /-- Whether the options have ended with two minus signs. -/
  isEnded : Bool := false
  /-- The options that have been taken back by their letters. -/
  refused : List String := []

namespace Settings

/-- Reads letters behind a sign. A shell that starts knows two more. -/
def readLetters (isStart value : Bool) : List Char → Settings → Except OptionFault Settings
  | [], s => .ok s
  | 'o' :: cs, s =>
    match s.rest with
    | [] =>
      let o := if isStart then ⟨Options.table.map Prod.fst⟩ else s.options
      readLetters isStart value cs { s with lines := s.lines ++ o.listing value }
    | name :: rest =>
      if Options.table.any (·.1 == name) then
        readLetters isStart value cs { s with options := s.options.set value name, rest }
      else .error (.name name)
  | c :: cs, s =>
    if isStart && c == 'c' then readLetters isStart value cs { s with hasText := true }
    else if isStart && c == 'l' then readLetters isStart value cs s
    else
      match Options.table.find? (·.2 == some c) with
      | some (name, _) =>
        readLetters isStart value cs { s with
          options := s.options.setLetter value name
          refused := if value then s.refused else name :: s.refused }
      | none => .error (.letter c)

/-- Reads the options among some arguments; `steps` are as many as there are arguments. -/
def readAll (isStart : Bool) : Nat → Settings → Except OptionFault Settings
  | 0, s => .ok s
  | steps + 1, s =>
    match s.rest with
    | [] => .ok s
    | "-" :: rest =>
      let options := if isStart then s.options
        else (s.options.set false "xtrace").set false "verbose"
      .ok { s with options, rest }
    | "--" :: rest => .ok { s with rest, isEnded := true }
    | arg :: rest =>
      match arg.toList with
      | '-' :: letters => do
        readAll isStart steps (← readLetters isStart true letters { s with rest })
      | '+' :: letters => do
        readAll isStart steps (← readLetters isStart false letters { s with rest })
      | _ => .ok s

/-- What some arguments say of the options. -/
def ofArguments (isStart : Bool) (options : Options) (args : List String) :
    Except OptionFault Settings :=
  readAll isStart args.length { options, rest := args }

end Settings

end ContainerCommand.Shell
