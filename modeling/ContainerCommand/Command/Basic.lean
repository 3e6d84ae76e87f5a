import ContainerCommand.Resolution.Basic

/-! Commands.

A command is the words that start the container runtime followed by tokens, each of
which is one showing of a parameter's template. A token is passed to the program or
says which file receives its output; the text of a command shows both
(`Command.cmdline`), its arguments only the former (`Command.argv`). -/
namespace ContainerCommand

/-- What a token is for. -/
inductive Role where
  | argument
  /-- The output of the program goes to a file. -/
  | redirect (target : String)
deriving DecidableEq

/-- One showing of a parameter's template. -/
structure Token where
  param : String
  words : List String
  role : Role
deriving DecidableEq

namespace Token

def render (token : Token) : String :=
  " ".intercalate token.words

/-- The file that receives the output, if the token names one. -/
def target? (token : Token) : Option String :=
  match token.role with
  | .argument => none
  | .redirect target => some target

def isRedirect (token : Token) : Bool :=
  token.target?.isSome

end Token

/-- The words that start every command. -/
structure Launcher where
  /-- The program of the container runtime. -/
  binary : String := "singularity"
  /-- Its subcommand that runs an image. -/
  subcommand : String := "run"
  /-- The word that asks it for messages. -/
  debugToken : String := "--debug"
deriving DecidableEq

namespace Launcher

def words (launcher : Launcher) (debug : Bool) : List String :=
  [launcher.binary] ++ (if debug then [launcher.debugToken] else []) ++ [launcher.subcommand]

end Launcher

/-- A compiled command. -/
structure Command where
  /-- The words that start it. -/
  launch : List String
  tokens : List Token
  /-- The values it was made from, the suppressed ones too. -/
  resolved : Resolution
deriving DecidableEq

/-- What is run: a program with its arguments, and the file that receives its output. -/
structure Invocation where
  argv : List String
  redirect : Option String := none
deriving DecidableEq

namespace Command

def renderedTokens (command : Command) : List String :=
  command.launch ++ command.tokens.map Token.render

/-- The command as a text. -/
def cmdline (command : Command) : String :=
  " ".intercalate command.renderedTokens

/-- The program and its arguments: the words of all tokens that are no redirection. -/
def argv (command : Command) : List String :=
  command.launch ++ (command.tokens.filter (!·.isRedirect)).flatMap Token.words

/-- The file that the last redirection names. -/
def redirectTarget (command : Command) : Option String :=
  (command.tokens.filterMap Token.target?).getLast?

/-- The tokens that show a parameter. -/
def tokensOf (command : Command) (name : String) : List Token :=
  command.tokens.filter (·.param == name)

def invocation (command : Command) : Invocation :=
  ⟨command.argv, command.redirectTarget⟩

end Command

end ContainerCommand
