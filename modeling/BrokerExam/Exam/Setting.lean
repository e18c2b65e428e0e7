/-
BrokerExam/Exam/Setting.lean

Where an exam takes place, and what every stage does there: it may make a log
directory first, and then asks the broker something and judges the answer.
-/
import BrokerExam.Client
import BrokerExam.Exam.Material
import BrokerExam.LogDirectory.Write
import BrokerExam.Verdict.Judge

namespace BrokerExam.Exam

structure Setting where
  /-- Where the broker listens. -/
  address : String
  /-- Where its log directory is. -/
  plan : LogDirectoryPlan
  client : ClientConfig := {}
  deriving DecidableEq, Repr

namespace Setting

variable {m : Type → Type} [Monad m] [Journal m] [Clock m]

def connect [Network m] (s : Setting) : Tried m (Client m) := Client.connect s.address s.client

/-- Makes the log directory anew, with these topics. -/
def generate [Storage m] (s : Setting) (topics : List PlannedTopic) :
    Tried m GeneratedLogDirectory :=
  attempting (.generateLogDirectory s.plan.root) (LogDirectory.generate { s.plan with topics })

end Setting

variable {m : Type → Type} [Monad m] [Journal m] [Clock m] [Network m]
  {β ρ ε : Type} [RequestBody β] [ResponseBody ρ] [Expectation ε ρ]

/-- Judges an answer to the last byte. -/
def judge (e : ε) (answer : Frame) : Tried m Unit := do
  let _ ← Verdict.judgeMessage e answer false

/-- Sends a request and judges the answer to it. -/
def ask (c : Client m) (r : Request β) (e : ε) : Tried m Unit := do judge e (← c.exchange r)

/-- Asks one thing on a connection of its own. -/
def askOnce (s : Setting) (r : Request β) (e : ε) : Tried m Unit := do
  let c ← s.connect
  ask c r e
  c.close

end BrokerExam.Exam
