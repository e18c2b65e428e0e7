/-
BrokerExam/Broker/Reply.lean

A small broker that serves a log directory, to try exams on.  It reads the
directory anew for every request, and can have one defect.  What a defect does
to the contents of a reply is done to a reply that is right (`Defect.onFetch`
and the like); what it does to a log is done when the log is written.
-/
import BrokerExam.Broker.Defect
import BrokerExam.LogDirectory.Read

namespace BrokerExam

namespace Broker

open Storage LogDirectory

/-! ### What the broker knows -/

structure KnownTopic where
  name : String
  uuid : Uuid
  partitions : List Int32
  deriving DecidableEq, Repr

/-- Adds a partition to the first topic with its identity. -/
def addPartition (uuid : Uuid) (id : Int32) : List KnownTopic → List KnownTopic
  | [] => []
  | t :: ts =>
    if t.uuid = uuid then { t with partitions := t.partitions ++ [id] } :: ts
    else t :: addPartition uuid id ts

def learn (known : List KnownTopic) (payload : MetadataPayload) : List KnownTopic :=
  match payload.data with
  | .topic r => known ++ [⟨r.topicName, r.topicUuid, []⟩]
  | .partition r => addPartition r.topicUuid r.partitionId known
  | _ => known

variable {m : Type → Type} [Monad m] [Storage m]

/-- The topics in the cluster metadata, or none where there is none. -/
def knownTopics (root : String) : Tried m (List KnownTopic) := do
  if ← pathExists (Files.join root metadataDirectoryName) then
    return (← readClusterMetadata root).foldl learn []
  else return []

/-! ### Right answers -/

/-- The APIs that the broker serves. -/
def servedKeys : List ApiKeyVersions := [⟨0, 0, 11⟩, ⟨1, 0, 16⟩, ⟨18, 0, 4⟩, ⟨75, 0, 0⟩]

def apiVersions (served : Bool) : ApiVersionsResponseBody :=
  if served then { errorCode := 0, apiKeys := servedKeys, throttleTimeMs := 0 }
  else { errorCode := ErrorCode.unsupportedVersion.code, apiKeys := [], throttleTimeMs := 0 }

/-- The operations that everyone may do. -/
def authorizedOperations : Int32 := 0x0df8

def describeTopic (known : List KnownTopic) (name : String) : DescribedTopic :=
  match known.find? (·.name = name) with
  | some t =>
    { errorCode := 0
      name := some name
      topicUuid := t.uuid
      partitions := t.partitions.map fun id =>
        { partitionIndex := id, leaderId := 1, replicaNodes := [1], isrNodes := [1] }
      topicAuthorizedOperations := authorizedOperations }
  | none =>
    { errorCode := ErrorCode.unknownTopicOrPartition.code
      name := some name
      topicAuthorizedOperations := authorizedOperations }

def describe (known : List KnownTopic) (request : DescribeTopicPartitionsRequestBody) :
    DescribeTopicPartitionsResponseBody :=
  { topics := (request.topicNames.mergeSort (· ≤ ·)).map (describeTopic known) }

def fetchPartition (root : String) (topic : Option KnownTopic) (id : Int32) :
    Tried m FetchedPartition := do
  match topic with
  | none => return { id, errorCode := ErrorCode.unknownTopicId.code }
  | some t =>
    let plan : LogDirectoryPlan := { root }
    return { id, recordBatches := ← readRecordBatches (plan.partitionDirectory t.name id) }

def fetch (root : String) (known : List KnownTopic) (request : FetchRequestBody) :
    Tried m FetchResponseBody := do
  let topics ← request.topics.mapM fun requested => do
    let topic := known.find? (·.uuid = requested.topicUuid)
    let partitions ← requested.partitions.mapM fun p => fetchPartition root topic p.id
    return { topicUuid := requested.topicUuid, partitions }
  return { topics }

/-- The batches one after the other, from an offset on. -/
def placed (offset : Int64) : List RecordBatch → List RecordBatch
  | [] => []
  | b :: bs => b.storedAt offset :: placed (offset + b.lastOffsetDelta.toInt64 + 1) bs

/-- Adds batches to a log, and gives the offset of the first. -/
def append (defect : Option Defect) (directory : String) (batches : List RecordBatch) :
    Tried m Int64 := do
  let log ← readRecordBatches directory
  let offset := match log.getLast? with
    | some last => last.baseOffset + last.lastOffsetDelta.toInt64 + 1
    | none => 0
  let contents := encodeLog (log ++ placed offset batches)
  let path := Files.join directory logFileName
  -- a defect spoils the file alone, and leaves the answer as it would be
  let written := match defect with
    | some .extraWrite => contents ++ [0]
    | some .corruptWrite => contents.modify 20 (· ^^^ 1)
    | some .noWrite => []
    | _ => contents
  attempt (.writeLog path) (writeFile path written)
  if defect = some .removeLog then
    attempt (.writeLog path) (removeFile path)
  return offset

def producePartition (root : String) (defect : Option Defect) (topic : Option KnownTopic)
    (p : ProduceRequestPartition) : Tried m ProducedPartition := do
  match topic with
  | some t =>
    if p.id ∈ t.partitions then
      let plan : LogDirectoryPlan := { root }
      let offset ← append defect (plan.partitionDirectory t.name p.id) p.recordBatches
      return { id := p.id, baseOffset := offset, logAppendTimeMs := -1, logStartOffset := min offset 0 }
    else return refused
  | none => return refused
where
  refused : ProducedPartition :=
    { id := p.id
      errorCode := ErrorCode.unknownTopicOrPartition.code
      baseOffset := -1
      logAppendTimeMs := -1
      logStartOffset := -1 }

def produce (root : String) (defect : Option Defect) (known : List KnownTopic)
    (request : ProduceRequestBody) : Tried m ProduceResponseBody := do
  let topics ← request.topics.mapM fun requested => do
    let topic := known.find? (·.name = requested.name)
    let partitions ← requested.partitions.mapM (producePartition root defect topic)
    return { name := requested.name, partitions }
  return { topics }

end Broker

/-! ### Defects of answers -/

namespace Defect

open Broker

/-- A list of topics as a defect has it. -/
def onTopics {α : Type} (topics : List α) : Defect → List α
  | dropTopics => []
  | dupTopics => topics ++ topics
  | reverseTopics => topics.reverse
  | _ => topics

def onApiVersions (served : Bool) (body : ApiVersionsResponseBody) :
    Defect → ApiVersionsResponseBody
  | oldVersions =>
    { body with apiKeys := body.apiKeys.map fun k => { k with maxVersion := k.maxVersion - 1 } }
  | newVersions => { body with apiKeys := body.apiKeys.map fun k => { k with minVersion := 1 } }
  | fewKeys => if served then { body with apiKeys := [⟨18, 0, 4⟩, ⟨100, 0, 0⟩] } else body
  | bodyError => { body with errorCode := 7 }
  | throttle => if served then { body with throttleTimeMs := 1 } else body
  | _ => body

/-- An identity that no topic has. -/
def strangeUuid : Uuid := ⟨BitVec.allOnes 128⟩

def onDescribed (t : DescribedTopic) (d : Defect) : DescribedTopic :=
  let each (f : DescribedPartition → DescribedPartition) :=
    { t with partitions := t.partitions.map f }
  match d with
  | topicError => { t with errorCode := 42 }
  | wrongName => { t with name := none }
  | wrongUuid => { t with topicUuid := strangeUuid }
  | dropPartitions => { t with partitions := [] }
  | reversePartitions => { t with partitions := t.partitions.reverse }
  | wrongIndex => each fun p => { p with partitionIndex := p.partitionIndex + 1 }
  | partitionError => each fun p => { p with errorCode := 5 }
  | _ => t

def onDescribe (body : DescribeTopicPartitionsResponseBody) (d : Defect) :
    DescribeTopicPartitionsResponseBody :=
  { throttleTimeMs := if d = throttle then 1 else body.throttleTimeMs
    topics := d.onTopics (body.topics.map d.onDescribed)
    nextCursor := if d = cursor then some ⟨"next", 1⟩ else body.nextCursor }

def onFetched (t : FetchedTopic) (d : Defect) : FetchedTopic :=
  let each (f : FetchedPartition → FetchedPartition) := { t with partitions := t.partitions.map f }
  match d with
  | wrongUuid => { t with topicUuid := strangeUuid }
  | dropPartitions => { t with partitions := [] }
  | wrongIndex => each fun p => { p with id := p.id + 1 }
  | partitionError => each fun p => { p with errorCode := 5 }
  | dropBatches => each fun p => { p with recordBatches := [] }
  | dupBatches => each fun p => { p with recordBatches := p.recordBatches ++ p.recordBatches }
  | bumpOffset =>
    each fun p =>
      { p with recordBatches := p.recordBatches.map fun b => b.storedAt (b.baseOffset + 1) }
  | _ => t

def onFetch (body : FetchResponseBody) (d : Defect) : FetchResponseBody :=
  { throttleTimeMs := if d = throttle then 1 else body.throttleTimeMs
    errorCode := if d = bodyError then 7 else body.errorCode
    sessionId := if d = session then 3 else body.sessionId
    topics := d.onTopics (body.topics.map d.onFetched) }

def onProduced (t : ProducedTopic) (d : Defect) : ProducedTopic :=
  let each (f : ProducedPartition → ProducedPartition) :=
    { t with partitions := t.partitions.map f }
  match d with
  | wrongName => { t with name := "zzz" }
  | dropPartitions => { t with partitions := [] }
  | wrongIndex => each fun p => { p with id := p.id + 100 }
  | partitionError => each fun p => { p with errorCode := 5 }
  | bumpOffset => each fun p => { p with baseOffset := p.baseOffset + 1 }
  | appendTime => each fun p => { p with logAppendTimeMs := 5 }
  | logStart => each fun p => { p with logStartOffset := 9 }
  | _ => t

def onProduce (body : ProduceResponseBody) (d : Defect) : ProduceResponseBody :=
  { topics := d.onTopics (body.topics.map d.onProduced)
    throttleTimeMs := if d = throttle then 1 else body.throttleTimeMs }

end Defect

namespace Broker

/-! ### Replies -/

variable {m : Type → Type} [Monad m] [Storage m]

/-- A body with what the defect does to it, if there is one. -/
def spoilt {β : Type} (defect : Option Defect) (f : β → Defect → β) (body : β) : β :=
  match defect with
  | some d => f body d
  | none => body

/-- The request in a payload. -/
def request {β : Type} [RequestBody β] (payload : Bytes) : Tried m (Request β) :=
  match Request.decode payload with
  | .ok r => return r
  | .error e => fail (.decode e)

/-- The payload of the reply to a request; a failure is a request that is not answered. -/
def reply (root : String) (defect : Option Defect) (payload : Bytes) : Tried m Bytes := do
  match RequestHeader.decode payload with
  | .error e => fail (.decode e)
  | .ok h =>
    let id := if defect = some .wrongCorrelationId then h.correlationId + 1 else h.correlationId
    let respond {β : Type} [ResponseBody β] (body : β) : Bytes := Response.encode ⟨⟨id⟩, body⟩
    match ApiKey.ofCode? h.apiKey with
    | some .apiVersions =>
      let served := defect = some .anyVersion || (0 ≤ h.apiVersion && h.apiVersion ≤ 4)
      return respond (spoilt defect (Defect.onApiVersions served) (apiVersions served))
    | some .describeTopicPartitions =>
      let r : Request DescribeTopicPartitionsRequestBody ← request payload
      return respond (spoilt defect Defect.onDescribe (describe (← knownTopics root) r.body))
    | some .fetch =>
      let r : Request FetchRequestBody ← request payload
      return respond (spoilt defect Defect.onFetch (← fetch root (← knownTopics root) r.body))
    | some .produce =>
      let r : Request ProduceRequestBody ← request payload
      return respond
        (spoilt defect Defect.onProduce (← produce root defect (← knownTopics root) r.body))
    | _ => fail (.unservedApi h.apiKey)

end Broker
end BrokerExam
