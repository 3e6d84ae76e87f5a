import ContainerCommand.Host.Disk
import ContainerCommand.Shell.Decimal

/-! Conditions: the truth of the arguments of `test`.

A condition is read from its start to its end. A text that could be an operator is one unless
what stands behind it makes it an operand (`Operator.at?`); with three or four arguments the
operator in the middle, or the brackets around them, decide first. -/
namespace ContainerCommand.Shell.Condition
open Host

/-- Why a condition has no truth. -/
inductive Fault where
  | badNumber (text : String)
  /-- Nothing stands behind an operator. -/
  | missingArgument (operator : String)
  /-- What stands behind an operand is no operator. -/
  | noOperator (operand : String)
  | openBracket
  /-- The arguments of a bracket do not end with another. -/
  | openCommand

def Fault.message : Fault → String
  | .badNumber text => "Illegal number: " ++ text
  | .missingArgument operator => operator ++ ": argument expected"
  | .noOperator operand =>
    (if operand.isEmpty then "" else operand ++ ": ") ++ "unexpected operator"
  | .openBracket => "closing paren expected"
  | .openCommand => "missing ]"

/-- What an argument is where it stands. -/
inductive Operator where
  | unary (name : String)
  | binary (name : String)
  | negation
  | conjunction
  | disjunction
  | opening
  | closing
  | operand
  | ending
deriving DecidableEq

namespace Operator

/-- What a text alone could be. -/
def ofText (text : String) : Operator :=
  if text == "!" then .negation
  else if text == "-a" then .conjunction
  else if text == "-o" then .disjunction
  else if text == "(" then .opening
  else if text == ")" then .closing
  else if ["=", "!=", "<", ">", "-eq", "-ne", "-ge", "-gt", "-le", "-lt", "-nt", "-ot",
      "-ef"].contains text then .binary text
  else if text.length == 2 && text.startsWith "-" &&
      "rwxefdcbpugkstznhOGLS".toList.contains (text.toList.getLastD '-') then .unary text
  else .operand

def isBinary : Operator → Bool
  | .binary _ => true
  | _ => false

/-- What the first of some arguments is. -/
def at? : List String → Operator
  | [] => .ending
  | text :: rest =>
    match ofText text, rest with
    | .unary _, [] => .operand
    | .unary name, [_] => .unary name
    | .unary name, next :: _ => if (ofText next).isBinary then .operand else .unary name
    | .opening, [] => .operand
    | operator, _ => operator

end Operator

/-- What stands where a path leads, if anything does. -/
abbrev Find : Type := String → Option (Location × Entry)

def integer (text : String) : Except Fault Int :=
  match integer? text with
  | some n => .ok n
  | none => .error (.badNumber text)

/-- The truth of an operator with one operand. -/
def unary (find : Find) (operator operand : String) : Except Fault Bool :=
  let entry := (find operand).map Prod.snd
  match operator with
  | "-n" => .ok (operand != "")
  | "-z" => .ok (operand == "")
  | "-t" => do
    let _ ← integer operand
    return false
  | "-e" | "-r" | "-w" | "-O" | "-G" => .ok entry.isSome
  | "-f" => .ok (match entry with
    | some (.file _) | some (.program _) => true
    | _ => false)
  | "-d" => .ok (entry == some .directory)
  | "-c" => .ok (entry == some .sink || entry == some .full)
  | "-p" => .ok (match entry with
    | some (.stream _) => true
    | _ => false)
  | "-s" => .ok (match entry with
    | some (.file content) => !content.isEmpty
    | some .directory | some (.program _) => true
    | _ => false)
  | "-x" => .ok (match entry with
    | some .directory | some (.program _) => true
    | _ => false)
  | "-k" => .ok ((find operand).any fun e => e.1 == ["tmp"] || e.1 == ["var", "tmp"])
  | _ => .ok false

/-- The truth of an operator between two operands. Files have no age. -/
def binary (find : Find) (left operator right : String) : Except Fault Bool :=
  let compare (test : Int → Int → Bool) : Except Fault Bool := do
    return test (← integer left) (← integer right)
  match operator with
  | "=" => .ok (left == right)
  | "!=" => .ok (left != right)
  | "<" => .ok (left < right)
  | ">" => .ok (right < left)
  | "-eq" => compare fun a b => a == b
  | "-ne" => compare fun a b => a != b
  | "-lt" => compare fun a b => a < b
  | "-le" => compare fun a b => a ≤ b
  | "-gt" => compare fun a b => b < a
  | "-ge" => compare fun a b => b ≤ a
  | "-ef" => .ok (match find left, find right with
    | some (place, _), some (other, _) => place == other
    | _, _ => false)
  | _ => .ok false

/-- What has been found of a condition, and the arguments from the last one that it uses. -/
abbrev Found : Type := Except Fault (Bool × List String)

mutual

/-- The truth of alternatives; `all` holds if one before does. -/
def alternatives (find : Find) : Nat → Bool → Operator → List String → Found
  | 0, truth, _, args => .ok (truth, args)
  | fuel + 1, before, operator, args => do
    let (truth, args) ← together find fuel true operator args
    let truth := before || truth
    if Operator.at? (args.drop 1) = .disjunction then
      alternatives find fuel truth (Operator.at? (args.drop 2)) (args.drop 2)
    else return (truth, args)

/-- The truth of conditions that must all hold, as those before do. -/
def together (find : Find) : Nat → Bool → Operator → List String → Found
  | 0, truth, _, args => .ok (truth, args)
  | fuel + 1, before, operator, args => do
    let (truth, args) ← negations find fuel operator args
    let truth := before && truth
    if Operator.at? (args.drop 1) = .conjunction then
      together find fuel truth (Operator.at? (args.drop 2)) (args.drop 2)
    else return (truth, args)

/-- The truth of a condition behind any number of negations. -/
def negations (find : Find) : Nat → Operator → List String → Found
  | 0, _, args => .ok (false, args)
  | fuel + 1, operator, args =>
    if operator = .negation then do
      let next := Operator.at? (args.drop 1)
      let (truth, args) ←
        negations find fuel next (if next = .ending then args else args.drop 1)
      return (!truth, args)
    else primary find fuel operator args

/-- The truth of a condition that holds no others but between brackets. -/
def primary (find : Find) : Nat → Operator → List String → Found
  | 0, _, args => .ok (false, args)
  | fuel + 1, operator, args =>
    match operator with
    | .ending => .ok (false, args)
    | .opening =>
      let next := Operator.at? (args.drop 1)
      if next = .closing then .ok (false, args.drop 1)
      else do
        let (truth, args) ← alternatives find fuel false next (args.drop 1)
        if Operator.at? (args.drop 1) = .closing then return (truth, args.drop 1)
        else throw .openBracket
    | .unary name =>
      match args.drop 1 with
      | [] => .error (.missingArgument name)
      | operand :: rest => do return (← unary find name operand, operand :: rest)
    | _ =>
      let left := args.headD ""
      match Operator.at? (args.drop 1), args.drop 2 with
      | .binary name, [] => .error (.missingArgument name)
      | .binary name, right :: rest => do return (← binary find left name right, right :: rest)
      | _, _ => .ok (left != "", args)

end

/-- The truth of a condition that starts with a given operator; at most one argument may be left
behind its last one. -/
def whole (find : Find) (operator : Operator) (args : List String) : Except Fault Bool := do
  let (truth, rest) ← alternatives find (4 * args.length + 8) false operator args
  match rest with
  | operand :: _ :: _ => throw (.noOperator operand)
  | _ => return truth

/-- The truth of the arguments of `test`; without arguments it is false. Where one of three or four
arguments decides that the others are negated, a second negation counts for nothing. -/
def holds (find : Find) : List String → Except Fault Bool
  | [] => .ok false
  | [a, b, c] =>
    if (Operator.ofText b).isBinary then whole find .operand [a, b, c]
    else if a == "(" && c == ")" then whole find (Operator.at? [b]) [b]
    else if a == "!" then (holds find [b, c]).map not
    else whole find (Operator.at? [a, b, c]) [a, b, c]
  | [a, b, c, d] =>
    if a == "(" && d == ")" then whole find (Operator.at? [b, c]) [b, c]
    else if a == "!" then
      if b == "!" && !(Operator.ofText c).isBinary then holds find [b, c, d]
      else (holds find [b, c, d]).map not
    else whole find (Operator.at? [a, b, c, d]) [a, b, c, d]
  | args => whole find (Operator.at? args) args

/-- The truth of the arguments of an opening bracket. -/
def holdsBetween (find : Find) (args : List String) : Except Fault Bool :=
  match args.getLast? with
  | some last => if last.startsWith "]" then holds find args.dropLast else .error .openCommand
  | none => .error .openCommand

end ContainerCommand.Shell.Condition
