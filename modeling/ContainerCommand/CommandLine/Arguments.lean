/-! Arguments of the command line.

The words name a subcommand, with options of the whole program in front of it and its
own behind. They are read from the left, and the first that does not fit, or that asks
for help, decides. An option may stand once in front of the subcommand and once behind;
what stands behind counts. After `--` every word is an operand. -/
namespace ContainerCommand.CommandLine

/-- What the program is asked to do. -/
inductive Action where
  /-- Writes a configuration, over one that is there if it is forced to. -/
  | init (isForced : Bool)
  | tasks
  | describe (task : String)
  | compile (path : String) (asJson : Bool)
  | run (path : String)
deriving DecidableEq

structure Request where
  /-- The path of the configuration. -/
  config : String
  action : Action
deriving DecidableEq

/-- An option without a value. -/
inductive Flag where
  | force
  | json
  | verbose
  | help
  | version
deriving DecidableEq

namespace Flag

def long : Flag → String
  | .force => "force"
  | .json => "json"
  | .verbose => "verbose"
  | .help => "help"
  | .version => "version"

def short? : Flag → Option Char
  | .force => some 'f'
  | .json => none
  | .verbose => some 'v'
  | .help => some 'h'
  | .version => some 'V'

def about : Flag → String
  | .force => "Overwrite an existing config file"
  | .json => "Print the compiled command as JSON"
  | .verbose => "Log events at info level"
  | .help => "Print help"
  | .version => "Print version"

end Flag

/-- The subcommands. -/
inductive Verb where
  | init
  | tasks
  | describe
  | compile
  | run
deriving DecidableEq

/-- What a subcommand takes. -/
structure Operand where
  label : String
  about : String
  /-- Whether it must hold something. -/
  isPath : Bool

namespace Verb

def all : List Verb := [.init, .tasks, .describe, .compile, .run]

def name : Verb → String
  | .init => "init"
  | .tasks => "tasks"
  | .describe => "describe"
  | .compile => "compile"
  | .run => "run"

def about : Verb → String
  | .init => "Write a default config file if missing"
  | .tasks => "List built-in task types"
  | .describe => "Print a task type's merged parameter table (positions after merge)"
  | .compile => "Compile a task file and print the command line"
  | .run => "Compile a task file and run the container command"

/-- The flags of a subcommand, or of the program if there is none. -/
def flags : Option Verb → List Flag
  | none => [.verbose, .help, .version]
  | some .init => [.force, .verbose, .help]
  | some .compile => [.json, .verbose, .help]
  | some _ => [.verbose, .help]

def operand? : Verb → Option Operand
  | .init | .tasks => none
  | .describe => some ⟨"<TASK>", "Built-in task type name", false⟩
  | .compile | .run => some ⟨"<TASK_FILE>", "Task file (TOML)", true⟩

def ofName? (name : String) : Option Verb :=
  all.find? (·.name == name)

end Verb

/-- Why there is no request. -/
inductive Refusal where
  /-- The words ask for the version. -/
  | version
  /-- The words ask for help, with a subcommand or with the program. -/
  | help (topic : Option Verb)
  /-- The words ask for help with help. -/
  | helpOnHelp
  /-- The words do not fit. -/
  | misuse (verb : Option Verb)
deriving DecidableEq

/-- What the words of one level have given so far. -/
structure Given where
  config : Option String := none
  flags : List Flag := []
  operand : Option String := none

namespace Given

/-- Takes a flag, which may not be repeated. -/
def addFlag (level : Option Verb) (given : Given) (flag : Flag) : Except Refusal Given :=
  match flag with
  | .help => .error (.help level)
  | .version => .error .version
  | flag =>
    if given.flags.contains flag then .error (.misuse level)
    else .ok { given with flags := flag :: given.flags }

/-- Takes the path of the configuration, which may not be empty or repeated. -/
def setConfig (level : Option Verb) (given : Given) (path : String) : Except Refusal Given :=
  if path = "" ∨ given.config.isSome then .error (.misuse level)
  else .ok { given with config := some path }

/-- Takes an operand, if the subcommand has one and it has not been given. -/
def setOperand (verb : Verb) (given : Given) (word : String) : Except Refusal Given :=
  match verb.operand?, given.operand with
  | some operand, none =>
    if operand.isPath ∧ word = "" then .error (.misuse verb)
    else .ok { given with operand := some word }
  | _, _ => .error (.misuse verb)

end Given

/-- Whether a word is read as an option: a lone dash is not. -/
def isOption (word : String) : Bool :=
  match word.toList with
  | '-' :: _ :: _ => true
  | _ => false

/-- Takes a word that is an option, other than one whose value is the next word. -/
def takeOption (level : Option Verb) (given : Given) (word : String) : Except Refusal Given :=
  let flags := Verb.flags level
  match word.toList with
  | '-' :: '-' :: body =>
    let name := String.ofList (body.takeWhile (· != '='))
    match body.dropWhile (· != '=') with
    | _ :: value =>
      if name = "config" then given.setConfig level (String.ofList value)
      else .error (.misuse level)
    | [] =>
      match flags.find? (·.long == name) with
      | some flag => given.addFlag level flag
      | none => .error (.misuse level)
  | _ :: letters =>
    letters.foldlM (fun given letter =>
      match flags.find? (·.short? == some letter) with
      | some flag => given.addFlag level flag
      | none => .error (.misuse level)) given
  | [] => .error (.misuse level)

/-- Reads the words behind a subcommand. -/
def readBehind (verb : Verb) : Given → List String → Except Refusal Given
  | given, [] => .ok given
  | given, "--" :: rest => rest.foldlM (Given.setOperand verb) given
  | _, ["--config"] => .error (.misuse verb)
  | given, "--config" :: path :: rest =>
    if isOption path then .error (.misuse verb)
    else do readBehind verb (← given.setConfig verb path) rest
  | given, word :: rest =>
    if isOption word then do readBehind verb (← takeOption verb given word) rest
    else do readBehind verb (← given.setOperand verb word) rest

/-- The action that a subcommand stands for. -/
def action? (verb : Verb) (given : Given) : Option Action :=
  match verb, given.operand with
  | .init, none => some (.init (given.flags.contains .force))
  | .tasks, none => some .tasks
  | .describe, some task => some (.describe task)
  | .compile, some path => some (.compile path (given.flags.contains .json))
  | .run, some path => some (.run path)
  | _, _ => none

/-- The path of the configuration if none is given. -/
def standardConfig : String := "sifrun.toml"

/-- What the words behind `help` ask for. -/
def readHelp : List String → Refusal
  | [] => .help none
  | ["help"] => .helpOnHelp
  | [name] =>
    match Verb.ofName? name with
    | some verb => .help verb
    | none => .misuse none
  | _ => .misuse none

/-- Reads the words of a command line. -/
def readWords : Given → List String → Except Refusal Request
  | _, [] | _, "--" :: _ | _, ["--config"] => .error (.misuse none)
  | given, "--config" :: path :: rest =>
    if isOption path then .error (.misuse none)
    else do readWords (← given.setConfig none path) rest
  | given, word :: rest =>
    if isOption word then do readWords (← takeOption none given word) rest
    else if word = "help" then .error (readHelp rest)
    else
      match Verb.ofName? word with
      | none => .error (.misuse none)
      | some verb => do
        let own ← readBehind verb {} rest
        match action? verb own with
        | some action =>
          return ⟨(own.config.orElse fun _ => given.config).getD standardConfig, action⟩
        | none => throw (.misuse verb)

/-- The request that the words of a command line make. -/
def read (words : List String) : Except Refusal Request :=
  readWords {} words

end ContainerCommand.CommandLine
