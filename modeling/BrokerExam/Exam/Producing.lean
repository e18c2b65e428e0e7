/-
BrokerExam/Exam/Producing.lean

Stages about `Produce`: the broker appends what it accepts to its logs, which are
compared byte for byte once it has answered, and refuses what it has no place
for.
-/
import BrokerExam.Exam.Setting
import BrokerExam.Message.Draft
import BrokerExam.Verdict.OnDisk
import BrokerExam.Verdict.Produce

namespace BrokerExam.Exam

/-- Batches for partitions of a topic, one for each. -/
structure Delivery where
  topic : String
  batches : List (Int32 × RecordBatch)
  deriving DecidableEq, Repr

namespace Delivery

/-- A request with all the deliveries. -/
def request (ds : List Delivery) (correlationId : Int32) : Request ProduceRequestBody :=
  let draft := ProduceRequestBody.draft.withCorrelationId correlationId
  { draft with
    body := ds.foldl (fun body d =>
      d.batches.foldl (fun body (id, batch) => body.addBatches d.topic id [batch]) body) draft.body }

/-- The deliveries as answered, each of its partitions with the given answer. -/
def answered (ds : List Delivery) (answer : Int32 → ExpectedProducePartition) :
    List ExpectedProduceTopic :=
  ds.map fun d => ⟨d.topic, d.batches.map fun (id, _) => answer id⟩

/-- The logs that hold the deliveries and nothing else. -/
def logs (ds : List Delivery) : List ExpectedLog :=
  ds.flatMap fun d => d.batches.map fun (id, batch) => ⟨d.topic, id, [batch.storedAt 0]⟩

end Delivery

/-- A batch as a producer without an identity sends it. -/
def producedBatch (time : Int64) (messages : List String) : RecordBatch :=
  let records := messages.map fun text => ({ value := some (Utf8.encode text) } : Record)
  ({ (({} : RecordBatch).withTimestamp time |>.withProducer (-1) (-1) (-1)) with
    records } : RecordBatch).normalized

variable {m : Type → Type} [Monad m] [Journal m] [Clock m] [Network m] [Storage m] [Chance m]

/-- A batch of so many made-up messages. -/
def newBatch (messageCount : Nat) : Tried m RecordBatch := do
  let messages ← messages messageCount
  return producedBatch (Int64.ofInt (← Clock.now)) messages

/-- Makes empty topics with the given partitions. -/
def generateEmpty (s : Setting) (names : List String) (partitions : List Int32) :
    Tried m Unit := do
  let _ ← s.generate (← names.mapM fun name => topic name partitions 0)

/-- Sends deliveries that have to be refused. -/
def produceInVain (s : Setting) (ds : List Delivery) : Tried m Unit := do
  let correlationId ← correlationId
  let topics := Delivery.answered ds fun id => .error id ErrorCode.unknownTopicOrPartition.code
  askOnce s (Delivery.request ds correlationId) ({ correlationId, topics } : ProduceExpectation)

/-- Sends deliveries for empty logs, and looks for them there. -/
def produce (s : Setting) (ds : List Delivery) : Tried m Unit := do
  let correlationId ← correlationId
  let topics := Delivery.answered ds fun id => .success id 0
  askOnce s (Delivery.request ds correlationId) ({ correlationId, topics } : ProduceExpectation)
  checkLogs s.plan (Delivery.logs ds)

/-- Sends a batch for a topic that there is not. -/
def produceToUnknownTopic (s : Setting) : Tried m Unit := do
  match ← topicNames 2 with
  | [known, unknown] =>
    generateEmpty s [known] [0]
    produceInVain s [⟨unknown, [(0, ← newBatch 1)]⟩]
  | _ => pure ()

/-- Sends a batch for a partition that there is not. -/
def produceToUnknownPartition (s : Setting) : Tried m Unit := do
  let name ← topicName
  generateEmpty s [name] [0]
  let partition := Int32.ofNat (← numberBetween 4 10)
  produceInVain s [⟨name, [(partition, ← newBatch 1)]⟩]

/-- Sends a batch of one record on an open connection; the broker has so many before it. -/
def produceNext (c : Client m) (name : String) (offset : Int64) : Tried m RecordBatch := do
  let batch ← newBatch 1
  let correlationId ← correlationId
  let topics := [⟨name, [.success 0 offset]⟩]
  ask c (Delivery.request [⟨name, [(0, batch)]⟩] correlationId)
    ({ correlationId, topics } : ProduceExpectation)
  return batch.storedAt offset

/-- Sends two batches of one record, one after the other, on one connection. -/
def produceTwice (s : Setting) : Tried m Unit := do
  let name ← topicName
  generateEmpty s [name] [0]
  let c ← s.connect
  let batches ← [0, 1].mapM (produceNext c name)
  c.close
  checkLogs s.plan [⟨name, 0, batches⟩]

/-- Sends a batch of so many records. -/
def produceRecords (s : Setting) (count : Nat) : Tried m Unit := do
  let name ← topicName
  generateEmpty s [name] [0]
  produce s [⟨name, [(0, ← newBatch count)]⟩]

/-- Sends batches for all partitions but the last of so many. -/
def producePartitions (s : Setting) (count : Nat) : Tried m Unit := do
  let name ← topicName
  generateEmpty s [name] (partitionIds count)
  let batches ← (partitionIds (count - 1)).mapM fun id => return (id, ← newBatch 1)
  produce s [⟨name, batches⟩]

/-- Sends batches for so many topics. -/
def produceTopics (s : Setting) (count : Nat) : Tried m Unit := do
  let names ← topicNames count
  generateEmpty s names [0]
  produce s (← names.mapM fun name => return ⟨name, [(0, ← newBatch 1)]⟩)

end BrokerExam.Exam
