/-
BrokerExam/LogDirectory/Plan.lean

What a log directory is to hold: topics, their partitions, and the messages of
each partition.
-/
import BrokerExam.Files.Path
import BrokerExam.Trouble
import BrokerExam.Uuid

namespace BrokerExam

structure PlannedPartition where
  partitionId : Int32
  /-- The messages, each of which becomes a batch of one record. -/
  logs : List String := []
  deriving DecidableEq, Repr

structure PlannedTopic where
  name : String
  uuid : Uuid
  partitions : List PlannedPartition
  deriving DecidableEq, Repr

structure LogDirectoryPlan where
  root : String := "/tmp/kraft-combined-logs"
  /-- The broker's configuration, which need not be below the root. -/
  serverPropertiesPath : String := "/tmp/server.properties"
  topics : List PlannedTopic := []
  deriving DecidableEq, Repr

namespace LogDirectoryPlan

def partitionDirectory (plan : LogDirectoryPlan) (topic : String) (partition : Int32) : String :=
  Files.join plan.root s!"{topic}-{partition}"

/-! ### Validity -/

/-- No id is negative or among `seen`, and none comes twice. -/
def checkPartitions (topic : String) :
    List PlannedPartition → (seen : List Int32) → Except InvalidArgument Unit
  | [], _ => .ok ()
  | p :: ps, seen =>
    if p.partitionId < 0 ∨ p.partitionId ∈ seen then .error (.badPartition p.partitionId topic)
    else checkPartitions topic ps (p.partitionId :: seen)

/-- No name is empty or among `seen`, none comes twice, and the partitions of each are fine. -/
def checkTopics : List PlannedTopic → (seen : List String) → Except InvalidArgument Unit
  | [], _ => .ok ()
  | t :: ts, seen =>
    if t.name = "" then .error .emptyTopicName
    else if t.name ∈ seen then .error (.duplicateTopic t.name)
    else do
      checkPartitions t.name t.partitions []
      checkTopics ts (t.name :: seen)

/-- The first thing wrong with the plan, if there is one. -/
def check (plan : LogDirectoryPlan) : Except InvalidArgument Unit := checkTopics plan.topics []

end LogDirectoryPlan
end BrokerExam
