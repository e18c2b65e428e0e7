/-
BrokerExam/Verdict/OnDisk.lean

Whether a broker keeps what it accepted: the log of a partition must hold the
produced batches byte for byte.
-/
import BrokerExam.LogDirectory.Read

namespace BrokerExam

/-- All that the log of a partition should hold. -/
structure ExpectedLog where
  topic : String
  partition : Int32
  recordBatches : List RecordBatch
  deriving DecidableEq, Repr

/-- How many positions differ, those that only one of the two has among them. -/
def differingBytes : Bytes → Bytes → Nat
  | [], [] => 0
  | a :: as, b :: bs => (if a = b then 0 else 1) + differingBytes as bs
  | as, [] => as.length
  | [], bs => bs.length

variable {m : Type → Type} [Monad m] [Storage m] [Journal m]

def checkLog (plan : LogDirectoryPlan) (expected : ExpectedLog) : Tried m Unit := do
  let directory := plan.partitionDirectory expected.topic expected.partition
  let path := Files.join directory LogDirectory.logFileName
  match ← outcome (LogDirectory.readLogFile directory) with
  | .error e => throw (.objection (.missingLog path e.message))
  | .ok actual =>
    let wanted := encodeLog expected.recordBatches
    if actual = wanted then
      info s!"✓ {path} contains {expected.recordBatches.length} record batches ({actual.length} bytes)"
    else throw (.objection (.differentLog path (differingBytes wanted actual)))

/-- Each of the logs, in order. -/
def checkLogs (plan : LogDirectoryPlan) (expected : List ExpectedLog) : Tried m Unit :=
  expected.forM (checkLog plan)

end BrokerExam
