/-
BrokerExam/Exam/Describing.lean

Stages about `DescribeTopicPartitions`: the broker tells what its log directory
holds, the topics in the order of their names.
-/
import BrokerExam.Exam.Setting
import BrokerExam.Message.Draft
import BrokerExam.Verdict.DescribeTopicPartitions

namespace BrokerExam.Exam

variable {m : Type → Type} [Monad m] [Journal m] [Clock m] [Network m] [Storage m] [Chance m]

/-- Asks for topics, with so many partitions in the answer at most. -/
def describe (s : Setting) (topicNames : List String) (responsePartitionLimit : Int32)
    (topics : List ExpectedTopic) : Tried m Unit := do
  let correlationId ← correlationId
  let draft := DescribeTopicPartitionsRequestBody.draft.withCorrelationId correlationId
  askOnce s { draft with body := { draft.body with topicNames, responsePartitionLimit } }
    ({ correlationId, topics } : DescribeTopicPartitionsExpectation)

/-- Makes topics and asks for all of them. -/
def describeAll (s : Setting) (topics : List PlannedTopic) (limit : Int32) : Tried m Unit := do
  let made ← s.generate topics
  describe s (topics.map (·.name)) limit (ExpectedTopic.allOfGenerated made)

/-- Asks for a topic that there is not. -/
def describeUnknown (s : Setting) : Tried m Unit := do
  match ← topicNames 2 with
  | [known, unknown] =>
    let _ ← s.generate [← topic known [0] 0]
    describe s [unknown] 1 [.unknown unknown]
  | _ => pure ()

/-- Asks for a topic with so many partitions. -/
def describePartitions (s : Setting) (count : Nat) : Tried m Unit := do
  describeAll s [← topic (← topicName) (partitionIds count) 1] (Int32.ofNat count)

/-- Asks for so many topics, with room for one more partition than they have. -/
def describeTopics (s : Setting) (count : Nat) : Tried m Unit := do
  let topics ← (← topicNames count).mapM fun name => topic name [0] 1
  describeAll s topics (Int32.ofNat (count + 1))

end BrokerExam.Exam
