import ContainerCommand.CommandLine.Arguments

/-! What the program says about itself. -/
namespace ContainerCommand.CommandLine

def programName : String := "sifrun"

def versionText : String := programName ++ " 0.1.0\n"

/-- A text with blanks behind it, up to a width. -/
def padRight (width : Nat) (text : String) : String :=
  text ++ String.ofList (List.replicate (width - text.length) ' ')

/-- A text with blanks in front of it, up to a width. -/
def padLeft (width : Nat) (text : String) : String :=
  String.ofList (List.replicate (width - text.length) ' ') ++ text

/-- Lines of a name and what it stands for. -/
def listing (items : List (String × String)) : String :=
  let width := items.foldl (fun width item => max width item.1.length) 0
  String.join (items.map fun (name, about) => "  " ++ padRight width name ++ "  " ++ about ++ "\n")

/-- How a subcommand is used, or the program if there is none. -/
def usage (verb : Option Verb) : String :=
  let words := match verb with
    | none => [programName, "[OPTIONS]", "<COMMAND>"]
    | some verb =>
      [programName, verb.name, "[OPTIONS]"] ++ (verb.operand?.map Operand.label).toList
  "Usage: " ++ " ".intercalate words ++ "\n"

/-- The options of a subcommand, or of the program if there is none. -/
def optionsHelp (verb : Option Verb) : String :=
  let flags := (Verb.flags verb).map fun flag =>
    (match flag.short? with
      | some letter => "-" ++ String.ofList [letter] ++ ", --" ++ flag.long
      | none => "    --" ++ flag.long, flag.about)
  "Options:\n" ++ listing
    (("    --config <CONFIG>",
      "Path to the sifrun config file [default: " ++ standardConfig ++ "]") :: flags)

/-- The help with a subcommand, or with the program if there is none. -/
def help (verb : Option Verb) : String :=
  match verb with
  | none =>
    "Compile declarative tool parameters into container runtime invocations\n\n" ++ usage none ++
      "\nCommands:\n" ++
      listing (Verb.all.map (fun verb => (verb.name, verb.about)) ++
        [("help", "Print this message or the help of the given subcommand(s)")]) ++
      "\n" ++ optionsHelp none
  | some verb =>
    let arguments := match verb.operand? with
      | some operand => "\nArguments:\n" ++ listing [(operand.label, operand.about)]
      | none => ""
    verb.about ++ "\n\n" ++ usage verb ++ arguments ++ "\n" ++ optionsHelp verb

/-- The help with help. -/
def helpOnHelp : String :=
  "Print this message or the help of the given subcommand(s)\n\nUsage: " ++ programName ++
    " help [COMMAND]...\n\nArguments:\n" ++
    listing [("[COMMAND]...", "Print help for the subcommand(s)")]

end ContainerCommand.CommandLine
