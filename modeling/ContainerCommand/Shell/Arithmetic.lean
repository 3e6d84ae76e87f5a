import ContainerCommand.Number.Numeral

/-! Arithmetic in shell scripts: words of 64 bits, variables and the usual operators.

An expression is read by precedence, from the operators that bind least to those that
bind most; each level reads operands of the next. What an expression assigns is seen by
the parts behind it, and a part that does not count (`isIdle`) assigns nothing. -/
namespace ContainerCommand.Shell.Arithmetic
open Number

/-- Why an expression has no value. -/
inductive Fault where
  | noOperand
  | openBracket
  | noAlternative
  /-- Something stands behind the expression. -/
  | goesOn
  | divisionByZero
  /-- A variable holds what is no number. -/
  | badNumber (text : String)

/-- What is said of an expression with a fault. -/
def Fault.message (expression : String) : Fault → String
  | .badNumber text => "Illegal number: " ++ text
  | fault =>
    let reason := match fault with
      | .noOperand => "expecting primary"
      | .openBracket => "expecting ')'"
      | .noAlternative => "expecting ':'"
      | .goesOn => "expecting EOF"
      | _ => "division by zero"
    "arithmetic expression: " ++ reason ++ ": \"" ++ expression ++ "\""

inductive Token where
  | number (n : Int)
  | name (x : String)
  | operator (name : String)
  /-- What is none of these. -/
  | unknown

/-- The operators, longer ones first. -/
def operators : List String :=
  ["<<=", ">>=", "<<", ">>", "<=", ">=", "==", "!=", "&&", "||", "+=", "-=", "*=", "/=", "%=", "&=",
    "|=", "^=", "+", "-", "*", "/", "%", "<", ">", "!", "~", "(", ")", "&", "|", "^", "?", ":", "="]

/-- The operator that an assignment applies first, nothing in plain ones. -/
def assignment? : String → Option String
  | "=" => some ""
  | "<<=" => some "<<"
  | ">>=" => some ">>"
  | "+=" => some "+"
  | "-=" => some "-"
  | "*=" => some "*"
  | "/=" => some "/"
  | "%=" => some "%"
  | "&=" => some "&"
  | "|=" => some "|"
  | "^=" => some "^"
  | _ => none

/-- The number at the front of a text, and what follows: decimal, octal behind a zero, hexadecimal
behind `0x`. -/
def leadingNumber (cs : List Char) : Nat × List Char :=
  let spanned (radix : Nat) (digits : List Char) : Nat × List Char :=
    let own := digits.takeWhile (radixValue? radix · |>.isSome)
    ((ofRadix? radix own).getD 0, digits.drop own.length)
  match cs with
  | '0' :: x :: d :: rest =>
    if (x == 'x' || x == 'X') && (radixValue? 16 d).isSome then spanned 16 (d :: rest)
    else spanned 8 cs
  | '0' :: _ => spanned 8 cs
  | cs => spanned 10 cs

/-- The number that the text of a variable writes; a text without anything counts as zero. -/
def numberOf (text : String) : Except Fault Int :=
  let isBlank (c : Char) : Bool := c == ' ' || c == '\t' || c == '\n'
  match text.toList.dropWhile isBlank with
  | [] => .ok 0
  | cs =>
    let (negative, digits) := splitSign cs
    let (magnitude, rest) := leadingNumber digits
    let n : Int := if negative then -magnitude else magnitude
    if digits.head?.any Char.isDigit && rest.all isBlank && fitsWord n then .ok n
    else .error (.badNumber text)

/-- The tokens of an expression. -/
def tokens : Nat → List Char → List Token
  | 0, _ | _, [] => []
  | fuel + 1, c :: rest =>
    let cs := c :: rest
    let isPart (d : Char) : Bool := d.isAlphanum || d == '_'
    if c == ' ' || c == '\t' || c == '\n' then tokens fuel rest
    else if c.isDigit then
      let (n, rest) := leadingNumber cs
      .number (clampSigned 64 n) :: tokens fuel rest
    else if c.isAlpha || c == '_' then
      .name (String.ofList (cs.takeWhile isPart)) :: tokens fuel (cs.dropWhile isPart)
    else
      match operators.find? fun name => name.toList.isPrefixOf cs with
      | some name => .operator name :: tokens fuel (cs.drop name.length)
      | none => [.unknown]

/-- The operators between two operands, by precedence. -/
def levels : List (List String) :=
  [["||"], ["&&"], ["|"], ["^"], ["&"], ["==", "!="], ["<", "<=", ">", ">="], ["<<", ">>"],
    ["+", "-"], ["*", "/", "%"]]

def truth (b : Bool) : Int := if b then 1 else 0

/-- The number that a word of 64 bits keeps of another one. -/
def wrap (n : Int) : Int := wrapSigned 64 n

/-- The result of an operator between two operands. -/
def operate (name : String) (a b : Int) : Except Fault Int :=
  match name with
  | "||" => .ok (truth (a != 0 || b != 0))
  | "&&" => .ok (truth (a != 0 && b != 0))
  | "|" => .ok (BitVec.ofInt 64 a ||| BitVec.ofInt 64 b).toInt
  | "^" => .ok (BitVec.ofInt 64 a ^^^ BitVec.ofInt 64 b).toInt
  | "&" => .ok (BitVec.ofInt 64 a &&& BitVec.ofInt 64 b).toInt
  | "==" => .ok (truth (a == b))
  | "!=" => .ok (truth (a != b))
  | "<" => .ok (truth (a < b))
  | "<=" => .ok (truth (a ≤ b))
  | ">" => .ok (truth (b < a))
  | ">=" => .ok (truth (b ≤ a))
  | "<<" => .ok (wrap (a * (wordCount ((b % 64).toNat) : Int)))
  | ">>" => .ok (a / (wordCount ((b % 64).toNat) : Int))
  | "+" => .ok (wrap (a + b))
  | "-" => .ok (wrap (a - b))
  | "*" => .ok (wrap (a * b))
  | "/" => if b = 0 then .error .divisionByZero else .ok (wrap (a.tdiv b))
  | _ => if b = 0 then .error .divisionByZero else .ok (a.tmod b)

/-- What an expression has assigned so far, the last first. -/
abbrev Assigned : Type := List (String × Int)

/-- Finds a value, with what is assigned on the way. -/
abbrev Reckoning : Type → Type := StateT Assigned (Except Fault)

/-- The number that a variable holds; `text` gives what it held before. -/
def lookUp (text : String → String) (name : String) : Reckoning Int := do
  match (← get).lookup name with
  | some n => return n
  | none => numberOf (text name)

mutual

/-- The value of an assignment, or of an expression without one, and what follows. -/
def assignment (text : String → String) :
    Nat → Bool → List Token → Reckoning (Int × List Token)
  | 0, _, _ => throw .noOperand
  | fuel + 1, isIdle, ts =>
    match ts with
    | .name x :: .operator symbol :: rest =>
      match assignment? symbol with
      | none => choice text fuel isIdle ts
      | some name => do
        let (n, ts) ← assignment text fuel isIdle rest
        if isIdle then return (n, ts)
        else
          let n ← if name.isEmpty then pure n else do operate name (← lookUp text x) n
          modify ((x, n) :: ·)
          return (n, ts)
    | ts => choice text fuel isIdle ts

/-- The value of a choice between two expressions, or of one without choice, and what follows. -/
def choice (text : String → String) : Nat → Bool → List Token → Reckoning (Int × List Token)
  | 0, _, _ => throw .noOperand
  | fuel + 1, isIdle, ts => do
    let (condition, ts) ← operand text fuel isIdle levels ts
    match ts with
    | .operator "?" :: rest =>
      let (first, ts) ← assignment text fuel (isIdle || condition == 0) rest
      match ts with
      | .operator ":" :: rest =>
        let (second, ts) ← choice text fuel (isIdle || condition != 0) rest
        return (if condition != 0 then first else second, ts)
      | _ => throw .noAlternative
    | ts => return (condition, ts)

/-- The value of an operand of the given levels of operators, and what follows. -/
def operand (text : String → String) :
    Nat → Bool → List (List String) → List Token → Reckoning (Int × List Token)
  | 0, _, _, _ => throw .noOperand
  | fuel + 1, isIdle, names :: higher, ts => do
    let (first, ts) ← operand text fuel isIdle higher ts
    chain text fuel isIdle names higher first ts
  | fuel + 1, isIdle, [], ts =>
    match ts with
    | .number n :: rest => return (n, rest)
    | .name x :: rest => do return (← if isIdle then pure 0 else lookUp text x, rest)
    | .operator "(" :: rest => do
      match ← assignment text fuel isIdle rest with
      | (n, .operator ")" :: rest) => return (n, rest)
      | _ => throw .openBracket
    | .operator "-" :: rest => do
      let (n, ts) ← operand text fuel isIdle [] rest
      return (wrap (-n), ts)
    | .operator "+" :: rest => operand text fuel isIdle [] rest
    | .operator "!" :: rest => do
      let (n, ts) ← operand text fuel isIdle [] rest
      return (truth (n == 0), ts)
    | .operator "~" :: rest => do
      let (n, ts) ← operand text fuel isIdle [] rest
      return (-n - 1, ts)
    | _ => throw .noOperand

/-- Continues with operators of one level and their operands. What stands behind `&&` or `||` does
not count if the operand before decides. -/
def chain (text : String → String) : Nat → Bool → List String → List (List String) → Int →
    List Token → Reckoning (Int × List Token)
  | 0, _, _, _, _, _ => throw .noOperand
  | fuel + 1, isIdle, names, higher, left, ts =>
    match ts with
    | .operator name :: rest =>
      if names.contains name then do
        let isDecided := (name == "&&" && left == 0) || (name == "||" && left != 0)
        let (right, ts) ← operand text fuel (isIdle || isDecided) higher rest
        let n ← if isIdle then pure right else operate name left right
        chain text fuel isIdle names higher n ts
      else return (left, ts)
    | ts => return (left, ts)

end

/-- The value of an expression, and what it assigns, the last first; `text` gives the text of a
variable. -/
def value (text : String → String) (cs : List Char) : Except Fault (Int × Assigned) := do
  let ts := tokens (cs.length + 1) cs
  match ← (assignment text (16 * ts.length + 16) false ts).run [] with
  | ((n, []), assigned) => return (n, assigned)
  | _ => throw .goesOn

end ContainerCommand.Shell.Arithmetic
