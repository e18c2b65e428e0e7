/-
BrokerExam/Verdict/Produce.lean

What is expected of an answer to `Produce`: these topics, each with these
partitions, in any order.
-/
import BrokerExam.Message.Produce
import BrokerExam.Verdict.Judge

namespace BrokerExam

structure ExpectedProducePartition where
  id : Int32
  errorCode : Int16
  baseOffset : Int64
  logStartOffset : Int64
  deriving DecidableEq, Repr

namespace ExpectedProducePartition

/-- Batches that were added at an offset. -/
def success (id : Int32) (baseOffset : Int64) : ExpectedProducePartition := ⟨id, 0, baseOffset, 0⟩

/-- Batches that were refused. -/
def error (id : Int32) (code : Int16) : ExpectedProducePartition := ⟨id, code, -1, -1⟩

end ExpectedProducePartition

structure ExpectedProduceTopic where
  name : String
  partitions : List ExpectedProducePartition
  deriving DecidableEq, Repr

structure ProduceExpectation where
  correlationId : Int32
  topics : List ExpectedProduceTopic := []
  /-- The time at which the batches were added, unless it does not matter. -/
  logAppendTimeMs : Option Int64 := some (-1)
  deriving DecidableEq, Repr

namespace ProduceExpectation

open Check

def rules (e : ProduceExpectation) : List Rule :=
  [⟨.exactly "ProduceResponse.Header.CorrelationID", .int32 e.correlationId⟩,
    ⟨.exactly "ProduceResponse.Body.ThrottleTimeMs", .int32 0⟩,
    ⟨.like "ProduceResponse.Body.Topics.**", .anything⟩]

def timeChecks (place : String) (expected : Option Int64) (actual : Int64) : List Check :=
  match expected with
  | none => []
  | some time =>
    [demand (actual = time)
        s!"Expected log append time for {place} to be {time}, got {actual}",
      remark s!"  ✓ Log append time: {time}"]

def partitionChecks (e : ProduceExpectation) (topic : String) (actual : List ProducedPartition)
    (expected : ExpectedProducePartition) : List Check :=
  match actual.find? (·.id = expected.id) with
  | none =>
    [failed s!"Expected partition {expected.id} to be present in topic {topic}"]
  | some p =>
    let place := s!"{topic}-{expected.id}"
    [demand (p.errorCode = expected.errorCode)
        s!"Expected error code for {place} to be {ErrorCode.describe expected.errorCode}, got {ErrorCode.describe p.errorCode}",
      remark s!"  ✓ Error code: {ErrorCode.describe p.errorCode}",
      demand (p.baseOffset = expected.baseOffset)
        s!"Expected base offset for {place} to be {expected.baseOffset}, got {p.baseOffset}",
      remark s!"  ✓ Base offset: {p.baseOffset}"]
    ++ timeChecks place e.logAppendTimeMs p.logAppendTimeMs
    ++ [demand (p.logStartOffset = expected.logStartOffset)
        s!"Expected log start offset for {place} to be {expected.logStartOffset}, got {p.logStartOffset}",
      remark s!"  ✓ Log start offset: {p.logStartOffset}"]

def topicChecks (e : ProduceExpectation) (actual : List ProducedTopic)
    (expected : ExpectedProduceTopic) : List Check :=
  match actual.find? (·.name = expected.name) with
  | none => [failed s!"Expected topic {expected.name} to be present in the response"]
  | some t =>
    [remark s!"✓ Topic: {t.name}",
      demand (t.partitions.length = expected.partitions.length)
        s!"Expected topic {expected.name} to have {expected.partitions.length} partitions, got {t.partitions.length}"]
    ++ expected.partitions.flatMap (partitionChecks e expected.name t.partitions)

def checks (e : ProduceExpectation) (r : Response ProduceResponseBody) : List Check :=
  let actual := r.body.topics
  [remark s!"✓ CorrelationID: {e.correlationId}",
    remark "✓ Throttle Time: 0",
    demand (actual.length = e.topics.length)
      s!"Expected topics.length to be {e.topics.length}, got {actual.length}"]
  ++ e.topics.flatMap (topicChecks e actual)

end ProduceExpectation

instance : Expectation ProduceExpectation ProduceResponseBody :=
  ⟨ProduceExpectation.rules, ProduceExpectation.checks⟩

end BrokerExam
