/-
BrokerExam/CommandLine/Perform.lean

Doing what the command line asks for.  The exit code is zero if all went well,
one if a stage was failed or something could not be done, and two if the command
line cannot be meant.
-/
import BrokerExam.CommandLine.Arguments
import BrokerExam.Exam.Sitting

namespace BrokerExam.CommandLine

variable {m : Type → Type} [Monad m]

/-- Says why there is nothing to do, and gives the exit code. -/
def Interruption.announce [Console m] : Interruption → m Nat
  | .help sc => do
    Console.print sc.help
    return 0
  | .version => do
    Console.print (versionText ++ "\n")
    return 0
  | .nothing sc => do
    Console.complain sc.help
    return 2
  | .refused r => do
    Console.complain r.message
    return 2

variable [Journal m] [Clock m] [Network m] [Storage m] [Chance m] [Console m]

/-- Makes a log directory to look around in. -/
def makeDemo (plan : LogDirectoryPlan) : Tried m Bool := do
  let made ← LogDirectory.generate { plan with topics := ← Exam.demoTopics }
  made.forM fun t =>
    info s!"Generated topic {t.name} ({t.uuid}) with {t.partitions.length} partitions"
  return true

/-- Makes a log directory and runs stages. -/
def examine (broker : String) (slugs : List String) (plan : LogDirectoryPlan) : Tried m Bool := do
  match Exam.select slugs with
  | .error cause => fail cause
  | .ok stages =>
    let plan := { plan with topics := ← Exam.demoTopics }
    let _ ← LogDirectory.generate plan
    info s!"Generated log directory at {Quoted.quote plan.root}"
    ExceptT.lift (Exam.sit { address := broker, plan } stages)

/-- Prints the stages, a line each. -/
def listStages : Tried m Bool := do
  ExceptT.lift (Exam.Stage.all.forM fun s => Console.print s!"{s.slug}\t{s.title}\n")
  return true

/-- Does what is asked for, and tells whether all is passed. -/
def Errand.perform : Errand → Tried m Bool
  | .generate plan => makeDemo plan
  | .run broker stages plan => examine broker stages plan
  | .list => listStages

/-- Runs the program on its arguments, and gives the exit code. -/
def perform (arguments : List String) : m Nat := do
  match read arguments with
  | .error i => i.announce
  | .ok invocation =>
    Console.showEntries invocation.level
    match ← invocation.errand.perform.run with
    | .ok passed => return if passed then 0 else 1
    | .error e =>
      Console.complain (e.report ++ "\n")
      return 1

end BrokerExam.CommandLine
