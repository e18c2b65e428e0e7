/-
BrokerExam/Verdict/DescribeTopicPartitions.lean

What is expected of an answer to `DescribeTopicPartitions`: these topics, each
with these partitions, in order, and no further page.
-/
import BrokerExam.LogDirectory.Write
import BrokerExam.Verdict.Judge

namespace BrokerExam

structure ExpectedPartition where
  partitionIndex : Int32
  errorCode : Int16
  deriving DecidableEq, Repr

structure ExpectedTopic where
  name : String
  uuid : Uuid
  errorCode : Int16
  partitions : List ExpectedPartition
  deriving DecidableEq, Repr

namespace ExpectedTopic

/-- A topic that the broker does not know. -/
def unknown (name : String) : ExpectedTopic :=
  ⟨name, Uuid.nil, ErrorCode.unknownTopicOrPartition.code, []⟩

def ofGenerated (t : GeneratedTopic) : ExpectedTopic :=
  ⟨t.name, t.uuid, 0, t.partitions.map fun p => ⟨p.partitionId, 0⟩⟩

/-- The topics in the order in which a broker gives them, that of their names. -/
def allOfGenerated (ts : List GeneratedTopic) : List ExpectedTopic :=
  (ts.map ofGenerated).mergeSort fun a b => a.name ≤ b.name

end ExpectedTopic

structure DescribeTopicPartitionsExpectation where
  correlationId : Int32
  topics : List ExpectedTopic := []
  deriving DecidableEq, Repr

namespace DescribeTopicPartitionsExpectation

open Check

def rules (e : DescribeTopicPartitionsExpectation) : List Rule :=
  [⟨.exactly "DescribeTopicPartitionsResponse.Header.CorrelationID", .int32 e.correlationId⟩,
    ⟨.exactly "DescribeTopicPartitionsResponse.Body.Topics.Length", .elements e.topics.length⟩,
    ⟨.exactly "DescribeTopicPartitionsResponse.Body.Cursor.IsCursorPresent", .int8 (-1)⟩,
    ⟨.exactly "DescribeTopicPartitionsResponse.Body.ThrottleTimeMs", .anything⟩,
    ⟨.like "DescribeTopicPartitionsResponse.Body.Topics.**", .anything⟩,
    ⟨.like "DescribeTopicPartitionsResponse.Body.Cursor.**", .anything⟩]

def partitionChecks (expected : ExpectedPartition) (actual : DescribedPartition) : List Check :=
  [demand (actual.errorCode = expected.errorCode)
      s!"Expected Partition Error Code to be {ErrorCode.describe expected.errorCode}, got {ErrorCode.describe actual.errorCode}",
    remark s!"  ✓ Partition Error Code: {actual.errorCode}",
    demand (actual.partitionIndex = expected.partitionIndex)
      s!"Expected Partition Index to be {expected.partitionIndex}, got {actual.partitionIndex}",
    remark s!"  ✓ PartitionIndex: {actual.partitionIndex}"]

def topicChecks (expected : ExpectedTopic) (actual : DescribedTopic) : List Check :=
  let name := actual.name.getD "null"
  [demand (name = expected.name) s!"Expected Topic Name to be {expected.name}, got {name}",
    demand (actual.errorCode = expected.errorCode)
      s!"Expected Topic Error Code to be {ErrorCode.describe expected.errorCode}, got {ErrorCode.describe actual.errorCode}",
    remark s!"✓ Topic Error Code: {ErrorCode.describe actual.errorCode}",
    remark s!"✓ Topic Name: {name}",
    demand (actual.topicUuid = expected.uuid)
      s!"Expected Topic UUID to be {expected.uuid}, got {actual.topicUuid}",
    remark s!"✓ Topic UUID: {actual.topicUuid}",
    demand (actual.partitions.length = expected.partitions.length)
      s!"Expected Partitions array to have length {expected.partitions.length}, got {actual.partitions.length}"]
  ++ (List.zipWith partitionChecks expected.partitions actual.partitions).flatten

def checks (e : DescribeTopicPartitionsExpectation)
    (r : Response DescribeTopicPartitionsResponseBody) : List Check :=
  let actual := r.body.topics
  [remark s!"✓ CorrelationID: {e.correlationId}",
    demand (actual.length = e.topics.length)
      s!"Expected DescribeTopicPartitionsResponse to contain {e.topics.length} topics, got {actual.length}"]
  ++ (List.zipWith topicChecks e.topics actual).flatten

end DescribeTopicPartitionsExpectation

instance : Expectation DescribeTopicPartitionsExpectation DescribeTopicPartitionsResponseBody :=
  ⟨DescribeTopicPartitionsExpectation.rules, DescribeTopicPartitionsExpectation.checks⟩

end BrokerExam
