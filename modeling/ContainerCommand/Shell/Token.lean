/-! The tokens of a script, and why a script cannot be read. -/
namespace ContainerCommand.Shell

inductive Token where
  /-- The end of the script. -/
  | ending
  | newline
  | operator (text : String)
  | redirection
  | word
  | keyword (text : String)
deriving DecidableEq

namespace Token

/-- The words that have a meaning where a command starts. -/
def keywords : List String :=
  ["!", "case", "do", "done", "elif", "else", "esac", "fi", "for", "if", "in", "then", "until",
    "while", "\x7b", "\x7d"]

/-- How a complaint names a token. -/
def name : Token → String
  | .ending => "end of file"
  | .newline => "newline"
  | .redirection => "redirection"
  | .word => "word"
  | .operator text | .keyword text => "\"" ++ text ++ "\""

/-- Whether a token ends a list of commands. -/
def endsList : Token → Bool
  | .ending => true
  | .operator text => text == ")" || text == ";;"
  | .keyword text =>
    ["do", "done", "elif", "else", "esac", "fi", "then", "\x7d"].contains text
  | _ => false

end Token

/-- Why a script cannot be read. -/
inductive Fault where
  | openQuote
  | openBrace
  | openBackquote
  | openExpression
  /-- A function whose name is none. -/
  | badFunction
  /-- A loop over words without a variable. -/
  | badVariable
  /-- A stream whose name is none. -/
  | badStream
  /-- Something that does not belong where it stands, and what should stand there if only one
  thing can. -/
  | unexpected (what : Token) (expected : Option Token)
  /-- The steps of the reader are used up. -/
  | endless
deriving DecidableEq

def Fault.message : Fault → String
  | .openQuote => "Syntax error: Unterminated quoted string"
  | .openBrace => "Syntax error: Missing '\x7d'"
  | .openBackquote => "Syntax error: EOF in backquote substitution"
  | .openExpression => "Syntax error: Missing '))'"
  | .badFunction => "Syntax error: Bad function name"
  | .badVariable => "Syntax error: Bad for loop variable"
  | .badStream => "Syntax error: Bad fd number"
  | .unexpected what expected =>
    "Syntax error: " ++ what.name ++ " unexpected" ++ match expected with
      | some other => " (expecting " ++ other.name ++ ")"
      | none => ""
  | .endless => "Syntax error: endless"

end ContainerCommand.Shell
