import ContainerCommand.Shell.Expansion
import ContainerCommand.Shell.Fork

/-! Texts that a shell shows to somebody who works with it: what it asks for commands with, and
what stands in front of a command that is shown. -/
namespace ContainerCommand.Shell.Act

/-- A text in which everything has been replaced as between double quotes. If it cannot be read or
expanded, it stays as it is. A script in it is read behind the end of the script that runs, if
that has been read. -/
def expandPrompt (capture : Capture) (text : String) : Act String := do
  let s ← shell
  let source : Source := {
    text := text.toList
    isPutBack := s.isAtEnd
    passages := s.passages }
  let note (next : Source) : Act Unit :=
    changeShell ({ · with passages := next.passages, isAtEnd := next.endsPutBack })
  let expanded : Act String := do
    match (readPrompt (readPart stepLimit .rest)).run source with
    | .ok w next =>
      note next
      expandText capture { isQuoted := true } w
    | .error fault next =>
      note next
      changeShell ({ · with line := next.line })
      fail fault.message
  tryCatch expanded fun stop => if stop = .failed then return text else throw stop

/-- Asks for the next command, or for more of one. -/
def ask (self : Runner) (isMore : Bool) : Act Unit := do
  let text ← value? (if isMore then "PS2" else "PS1")
  say (← expandPrompt (capture self) (text.getD ""))

end ContainerCommand.Shell.Act
