/-
BrokerExam/CommandLine/Scope.lean

What can be said on the command line.  A scope is what can be said at one place:
options, which take a value, flags, which do not, and commands, each of which
opens a scope of its own.
-/
import BrokerExam.LogDirectory.Plan

namespace BrokerExam.CommandLine

/-- Which values an option takes. -/
inductive Form
  | text
  /-- Anything but the empty text. -/
  | path
  | level
  deriving DecidableEq, Repr

/-- An option. -/
structure Opt where
  long : String
  short : Option Char := none
  /-- What stands for the value in help texts. -/
  placeholder : String
  about : String
  default : Option String := none
  repeatable : Bool := false
  form : Form := .text
  deriving DecidableEq, Repr

inductive Flag
  | help
  | version
  deriving DecidableEq, Repr

namespace Flag

def long : Flag → String
  | help => "help"
  | version => "version"

def short : Flag → Char
  | help => 'h'
  | version => 'V'

def about : Flag → String
  | help => "Print help"
  | version => "Print version"

end Flag

structure Scope where
  /-- The words that lead here. -/
  title : String
  about : String
  /-- Options, each with its rank in the help text. -/
  options : List (Nat × Opt)
  /-- Options that belong together, by their long names. -/
  groups : List (List String) := []
  flags : List Flag := [.help]
  /-- What stands for further words in the usage, and what they are. -/
  words : Option (String × String) := none
  /-- The names of the commands, and what they do; if there are any, one must be given. -/
  commands : List (String × String) := []
  deriving DecidableEq, Repr

namespace Scope

def option? (sc : Scope) (long : String) : Option Opt :=
  (sc.options.map (·.2)).find? (·.long = long)

def optionOfShort? (sc : Scope) (short : Char) : Option Opt :=
  (sc.options.map (·.2)).find? (·.short = some short)

def flag? (sc : Scope) (long : String) : Option Flag := sc.flags.find? (·.long = long)

def flagOfShort? (sc : Scope) (short : Char) : Option Flag := sc.flags.find? (·.short = short)

def commandNames (sc : Scope) : List String := sc.commands.map (·.1)

/-- The long names of options and flags. -/
def longNames (sc : Scope) : List String :=
  sc.options.map (·.2.long) ++ sc.flags.map Flag.long

end Scope

/-! ### The program -/

/-- The name by which the program is called. -/
def programName : String := "kgrade"

def versionText : String := "kgrade-bin 0.1.0"

/-- Where a broker listens by default. -/
def defaultBroker : String := "localhost:9092"

def logLevel : Opt :=
  { long := "log-level"
    short := some 'l'
    placeholder := "LOG_LEVEL"
    about := "Log level (trace, debug, info, warn, error)"
    default := some "info"
    form := .level }

def root : Opt :=
  { long := "root"
    placeholder := "ROOT"
    about := "Log directory the broker reads its topics from"
    default := some ({} : LogDirectoryPlan).root
    form := .path }

def serverProperties : Opt :=
  { long := "server-properties"
    placeholder := "SERVER_PROPERTIES"
    about := "Where to write the broker's server.properties"
    default := some ({} : LogDirectoryPlan).serverPropertiesPath
    form := .path }

def broker : Opt :=
  { long := "broker"
    short := some 'b'
    placeholder := "BROKER"
    about := "Broker address"
    default := some defaultBroker }

def stages : Opt :=
  { long := "stage"
    short := some 's'
    placeholder := "STAGES"
    about := "Stage slugs to run, in order (default: all)"
    repeatable := true }

/-- The commands, with what they do. -/
def commands : List (String × String) :=
  [("generate", "Write a log directory with a few random topics"),
    ("run", "Run stages against a broker that is already listening"),
    ("list", "List stage slugs and titles"),
    ("help", "Print this message or the help of the given subcommand(s)")]

/-- Where the command line begins. -/
def outermost : Scope :=
  { title := programName
    about := "Grades a Kafka broker over the wire"
    options := [(0, logLevel)]
    groups := [[logLevel.long]]
    flags := [.help, .version]
    commands }

/-- The options of a command, beside which the outermost one can be given too. -/
def optionsOf : String → List Opt
  | "generate" => [root, serverProperties]
  | "run" => [broker, stages, root, serverProperties]
  | _ => []

/-- The scope of a command. -/
def Scope.ofCommand (name about : String) : Scope :=
  let title := s!"{programName} {name}"
  if name = "help" then
    { title
      about
      options := []
      flags := []
      words := some ("[COMMAND]...", "Print help for the subcommand(s)") }
  else
    let own := optionsOf name
    { title
      about
      options := own.zipIdx.map (fun (o, i) => (i, o)) ++ outermost.options
      groups := if root ∈ own then [[root.long, serverProperties.long]] else [] }

/-- The scope that a command opens. -/
def Scope.enter? (sc : Scope) (name : String) : Option Scope :=
  (sc.commands.find? (·.1 = name)).map fun (name, about) => ofCommand name about

end BrokerExam.CommandLine
