/-! Why the host refuses what is asked of it. -/
namespace ContainerCommand.Host

/-- A refusal of the host's file system. -/
inductive Fault where
  | notFound
  | notPermitted
  /-- A name that the file system itself uses. -/
  | busy
  | exists
  | notDirectory
  | isDirectory
  | nameTooLong
  /-- A path that holds the character that ends paths. -/
  | nulInPath
  /-- A file whose bytes are no text. -/
  | notText
  /-- Any other refusal, by its number. -/
  | other (number : Nat) (reason : String)
deriving DecidableEq

namespace Fault

/-- What the refusal says. -/
def reason : Fault → String
  | .notFound => "No such file or directory"
  | .notPermitted => "Permission denied"
  | .busy => "Device or resource busy"
  | .exists => "File exists"
  | .notDirectory => "Not a directory"
  | .isDirectory => "Is a directory"
  | .nameTooLong => "File name too long"
  | .nulInPath => "file name contained an unexpected NUL byte"
  | .notText => "stream did not contain valid UTF-8"
  | .other _ reason => reason

/-- The operating system's number of the refusal, if it is the one that refuses. -/
def number? : Fault → Option Nat
  | .notFound => some 2
  | .notPermitted => some 13
  | .busy => some 16
  | .exists => some 17
  | .notDirectory => some 20
  | .isDirectory => some 21
  | .nameTooLong => some 36
  | .nulInPath | .notText => none
  | .other number _ => some number

def message (fault : Fault) : String :=
  match fault.number? with
  | some number => fault.reason ++ " (os error " ++ toString number ++ ")"
  | none => fault.reason

end Fault

end ContainerCommand.Host
