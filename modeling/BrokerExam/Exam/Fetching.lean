/-
BrokerExam/Exam/Fetching.lean

Stages about `Fetch`: the broker hands out the batches of its log directory, byte
for byte.
-/
import BrokerExam.Exam.Setting
import BrokerExam.LogDirectory.Read
import BrokerExam.Message.Draft
import BrokerExam.Verdict.Fetch

namespace BrokerExam.Exam

variable {m : Type → Type} [Monad m] [Journal m] [Clock m] [Network m] [Storage m] [Chance m]

/-- Asks for the whole of partitions, and expects them as given. -/
def fetch (s : Setting) (topics : List ExpectedFetchTopic) : Tried m Unit := do
  let correlationId ← correlationId
  let draft := FetchRequestBody.draft.withCorrelationId correlationId
  let body := topics.foldl (fun body t =>
    body.addTopic t.uuid (t.partitions.map fun p => .whole p.id)) draft.body
  askOnce s { draft with body } ({ correlationId, topics } : FetchExpectation)

/-- Asks for nothing. -/
def fetchNothing (s : Setting) : Tried m Unit := fetch s []

/-- Asks for a topic that there is not. -/
def fetchUnknown (s : Setting) : Tried m Unit := do
  let _ ← s.generate [← topic (← topicName) [0] 1]
  fetch s [⟨← uuid, [.error 0 ErrorCode.unknownTopicId.code]⟩]

/-- Asks for a partition with so many messages, and expects what its log holds. -/
def fetchMessages (s : Setting) (count : Nat) : Tried m Unit := do
  let topic ← topic (← topicName) [0] count
  let _ ← s.generate [topic]
  let batches ← LogDirectory.readRecordBatches (s.plan.partitionDirectory topic.name 0)
  fetch s [⟨topic.uuid, [.withBatches 0 batches]⟩]

end BrokerExam.Exam
