import ContainerCommand.Shell.Process

/-! The arguments of the shell's own commands.

Options are letters behind a minus sign. They end at an argument that is none, or behind two
minus signs. A letter may want a text, which is the rest of its argument or the next one. -/
namespace ContainerCommand.Shell

/-- The options among some arguments with the texts that belong to them, and the other arguments. -/
structure Chosen where
  options : List (Char × String) := []
  rest : List String

namespace Chosen

def has (c : Chosen) (letter : Char) : Bool := c.options.any (·.1 == letter)

/-- The letter of the last option. -/
def last? (c : Chosen) : Option Char := c.options.getLast?.map Prod.fst

/-- Whether a letter is known, and whether it wants a text: a colon stands behind it then. -/
def wantsText? (letter : Char) : List Char → Option Bool
  | [] => none
  | c :: rest =>
    if c == letter then some (rest.head? == some ':')
    else
      match rest with
      | ':' :: rest => wantsText? letter rest
      | rest => wantsText? letter rest

/-- Reads the letters of an argument. -/
def readLetters (known : List Char) : List Char → Chosen → Except String Chosen
  | [], c => .ok c
  | letter :: letters, c =>
    match wantsText? letter known, letters, c.rest with
    | none, _, _ => .error ("Illegal option -" ++ String.ofList [letter])
    | some false, _, _ =>
      readLetters known letters { c with options := c.options ++ [(letter, "")] }
    | some true, [], [] => .error ("No arg for -" ++ String.ofList [letter] ++ " option")
    | some true, [], text :: rest => .ok ⟨c.options ++ [(letter, text)], rest⟩
    | some true, letters, rest => .ok ⟨c.options ++ [(letter, String.ofList letters)], rest⟩

/-- Reads the options at the start of some arguments; `steps` are as many as there are arguments. -/
def readAll (known : List Char) : Nat → Chosen → Except String Chosen
  | 0, c => .ok c
  | steps + 1, c =>
    match c.rest with
    | [] => .ok c
    | arg :: rest =>
      match arg.toList with
      | ['-', '-'] => .ok { c with rest }
      | '-' :: letter :: letters => do
        readAll known steps (← readLetters known (letter :: letters) { c with rest })
      | _ => .ok c

end Chosen

/-- Reads the options of a command; `known` are their letters. -/
def Act.choose (known : String) (args : List String) : Act Chosen := do
  match Chosen.readAll known.toList args.length { rest := args } with
  | .ok c => return c
  | .error text => fail text

/-- The arguments of a command that has no options. -/
def Act.withoutOptions (args : List String) : Act (List String) := do
  return (← choose "" args).rest

end ContainerCommand.Shell
