/-
BrokerExam/CommandLine/Refusal.lean

Why a command line is refused.  A misspelt name is met with the name that may be
meant.
-/
import BrokerExam.CommandLine.Help
import BrokerExam.Trouble

namespace BrokerExam.CommandLine

/-- What to do instead. -/
inductive Tip
  /-- Another option or flag may be meant. -/
  | option (long : String)
  /-- An option of a command may be meant. -/
  | optionOf (command long : String)
  /-- One of these commands may be meant. -/
  | commands (names : List String)
  /-- A command is meant, but was marked as none. -/
  | unmark (command : String)
  deriving DecidableEq, Repr

def Tip.message : Tip → String
  | option long => s!"a similar argument exists: '--{long}'"
  | optionOf command long => s!"'{command} --{long}' exists"
  | commands [name] => s!"a similar subcommand exists: '{name}'"
  | commands names =>
    "some similar subcommands exist: " ++ ", ".intercalate (names.map fun name => s!"'{name}'")
  | unmark command => s!"subcommand '{command}' exists; to use it, remove the '--' before it"

inductive Complaint
  | unknownArgument (argument : String) (tip : Option Tip)
  | unknownCommand (name : String) (tip : Option Tip)
  | missingCommand
  | missingValue (o : Opt)
  | unacceptable (o : Opt) (value : String) (reason : InvalidArgument)
  | givenAgain (o : Opt)
  /-- A flag with a value. -/
  | needlessValue (f : Flag) (value : String)
  deriving DecidableEq, Repr

structure Refusal where
  scope : Scope
  complaint : Complaint
  /-- What was given before, for the usage. -/
  given : List Mention := []
  deriving DecidableEq, Repr

namespace Refusal

def what (r : Refusal) : String :=
  match r.complaint with
  | .unknownArgument argument _ => s!"unexpected argument '{argument}' found"
  | .unknownCommand name _ => s!"unrecognized subcommand '{name}'"
  | .missingCommand =>
    s!"'{r.scope.title}' requires a subcommand but one was not provided\n  "
      ++ "[subcommands: " ++ ", ".intercalate r.scope.commandNames ++ "]"
  | .missingValue o => s!"a value is required for '{o.spelling}' but none was supplied"
  | .unacceptable o value reason =>
    s!"invalid value '{value}' for '{o.spelling}': {reason.message}"
  | .givenAgain o => s!"the argument '{o.spelling}' cannot be used multiple times"
  | .needlessValue f value =>
    s!"unexpected value '{value}' for '--{f.long}' found; no more were expected"

def tip? (r : Refusal) : Option Tip :=
  match r.complaint with
  | .unknownArgument _ tip | .unknownCommand _ tip => tip
  | _ => none

/-- Whether to say how to call the program; where just a value is wrong, there is no need to. -/
def showsUsage (r : Refusal) : Bool :=
  match r.complaint with
  | .missingValue _ | .unacceptable .. => false
  | _ => true

/-- What was given, for the usage.  Beside a flag that was given a value, whole groups are shown. -/
def shown (r : Refusal) : List String :=
  match r.complaint with
  | .needlessValue .. => r.scope.asGrouped r.given
  | _ => asGiven r.given

def message (r : Refusal) : String :=
  "\n\n".intercalate
    (["error: " ++ r.what]
      ++ (r.tip?.map fun t => "  tip: " ++ t.message).toList
      ++ (if r.showsUsage then [r.scope.usage r.shown] else [])
      ++ (if .help ∈ r.scope.flags then ["For more information, try '--help'."] else []))
  ++ "\n"

end Refusal
end BrokerExam.CommandLine
