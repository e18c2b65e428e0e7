/-
BrokerExam/SystemError.lean

What the operating system refuses, about files and about connections.
-/
namespace BrokerExam

inductive SystemError
  | notFound
  | alreadyExists
  | notADirectory
  | isADirectory
  | nameTooLong
  /-- A file name with a zero character in it. -/
  | zeroInName
  | connectionRefused
  | connectionReset
  /-- The stream ended where more was needed. -/
  | endOfStream
  /-- Any other refusal, by its number and its name. -/
  | other (code : Nat) (name : String)
  deriving DecidableEq, Repr

namespace SystemError

/-- The number and the name that the operating system has for it. -/
def codeAndName : SystemError → Option (Nat × String)
  | notFound => some (2, "No such file or directory")
  | alreadyExists => some (17, "File exists")
  | notADirectory => some (20, "Not a directory")
  | isADirectory => some (21, "Is a directory")
  | nameTooLong => some (36, "File name too long")
  | connectionReset => some (104, "Connection reset by peer")
  | connectionRefused => some (111, "Connection refused")
  | other code name => some (code, name)
  | zeroInName | endOfStream => none

def message (e : SystemError) : String :=
  match e.codeAndName with
  | some (code, name) => s!"{name} (os error {code})"
  | none =>
    match e with
    | endOfStream => "early eof"
    | _ => "file name contained an unexpected NUL byte"

end SystemError
end BrokerExam
