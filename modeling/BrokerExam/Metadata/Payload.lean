/-
BrokerExam/Metadata/Payload.lean

Cluster metadata records: what the values of the records in the cluster metadata
log hold.  A payload begins with three bytes, the version of the frame, the type
of the record and the version of the record; the rest depends on the type.
-/
import BrokerExam.Wire.Cursor
import BrokerExam.Field.Value

namespace BrokerExam

structure FeatureLevelRecord where
  name : String
  featureLevel : Int16
  deriving DecidableEq, Repr

structure TopicRecord where
  topicName : String
  topicUuid : Uuid
  deriving DecidableEq, Repr

structure PartitionRecord where
  partitionId : Int32
  topicUuid : Uuid
  replicas : List Int32
  isr : List Int32
  removingReplicas : List Int32
  addingReplicas : List Int32
  leader : Int32
  leaderEpoch : Int32
  partitionEpoch : Int32
  directories : List Uuid
  deriving DecidableEq, Repr

inductive MetadataRecord
  | featureLevel (record : FeatureLevelRecord)
  | topic (record : TopicRecord)
  | partition (record : PartitionRecord)
  | zkMigrationState (migrationState : Int8)
  | beginTransaction (name : Option String)
  | endTransaction
  deriving DecidableEq, Repr

structure MetadataPayload where
  frameVersion : Int8
  version : Int8
  data : MetadataRecord
  deriving DecidableEq, Repr

namespace MetadataRecord

def type : MetadataRecord → Int8
  | topic _ => 2
  | partition _ => 3
  | featureLevel _ => 12
  | zkMigrationState _ => 21
  | beginTransaction _ => 23
  | endTransaction => 24

/-! ### Writing -/

/-- An array behind a length that counts one more than its elements. -/
def arrayValues (vs : List Value) : List Value :=
  .unsignedVarint (UInt64.ofNat (vs.length + 1)) :: vs

def noTags : Value := .unsignedVarint 0

/-- The values that follow the three bytes in front. -/
def values : MetadataRecord → List Value
  | featureLevel r => [.compactString r.name, .int16 r.featureLevel, noTags]
  | topic r => [.compactString r.topicName, .uuid r.topicUuid, noTags]
  | partition r =>
    [.int32 r.partitionId, .uuid r.topicUuid]
      ++ arrayValues (r.replicas.map .int32) ++ arrayValues (r.isr.map .int32)
      ++ arrayValues (r.removingReplicas.map .int32) ++ arrayValues (r.addingReplicas.map .int32)
      ++ [.int32 r.leader, .int32 r.leaderEpoch, .int32 r.partitionEpoch]
      ++ arrayValues (r.directories.map .uuid) ++ [noTags]
  | zkMigrationState s => [.int8 s, noTags]
  | beginTransaction none => [noTags]
  | beginTransaction (some name) =>
    let contents := Value.compactBytes name
    [.unsignedVarint 1, .unsignedVarint 0, .unsignedVarint (UInt64.ofNat contents.length),
      .rawBytes contents]
  | endTransaction => [noTags]

/-! ### Reading -/

/-- `count` elements. -/
def readMany {α : Type} (element : RawRead α) : Nat → RawRead (List α)
  | 0 => pure []
  | count + 1 => do
    let a ← element
    let as ← readMany element count
    pure (a :: as)

/-- An array behind a length that counts one more than its elements; zero reads as empty. -/
def readArray {α : Type} (element : RawRead α) : RawRead (List α) := do
  let length ← RawRead.unsignedVarint
  readMany element (length.toNat - 1)

/-- `count` tagged fields, of which tag zero holds the name; the last one given counts. -/
def readTags : Nat → Option String → RawRead (Option String)
  | 0, name => pure name
  | count + 1, name => do
    let tag ← RawRead.unsignedVarint
    let size ← RawRead.unsignedVarint
    if tag = 0 then
      let given ← RawRead.compactString
      readTags count (some given)
    else
      let _ ← RawRead.rawBytes size.toNat
      readTags count name

/-- The record of the given type. -/
def read (type : Int8) : RawRead MetadataRecord :=
  if type = 2 then do
    let topicName ← RawRead.compactString
    let topicUuid ← RawRead.uuid
    let _ ← RawRead.tagBuffer
    return topic { topicName, topicUuid }
  else if type = 3 then do
    let partitionId ← RawRead.int32
    let topicUuid ← RawRead.uuid
    let replicas ← readArray RawRead.int32
    let isr ← readArray RawRead.int32
    let removingReplicas ← readArray RawRead.int32
    let addingReplicas ← readArray RawRead.int32
    let leader ← RawRead.int32
    let leaderEpoch ← RawRead.int32
    let partitionEpoch ← RawRead.int32
    let directories ← readArray RawRead.uuid
    let _ ← RawRead.tagBuffer
    return partition {
      partitionId, topicUuid, replicas, isr, removingReplicas, addingReplicas
      leader, leaderEpoch, partitionEpoch, directories }
  else if type = 12 then do
    let name ← RawRead.compactString
    let featureLevel ← RawRead.int16
    let _ ← RawRead.tagBuffer
    return .featureLevel { name, featureLevel }
  else if type = 21 then do
    let state ← RawRead.int8
    let _ ← RawRead.tagBuffer
    return zkMigrationState state
  else if type = 23 then do
    let count ← RawRead.unsignedVarint
    let name ← readTags count.toNat none
    return beginTransaction name
  else if type = 24 then do
    let _ ← RawRead.tagBuffer
    return endTransaction
  else throw (.invalidValue (.metadataRecordType type))

end MetadataRecord

namespace MetadataPayload

/-- The version of the frame that generated payloads carry. -/
def frameVersionByte : Int8 := 1

def ofFeatureLevel (name : String) (featureLevel : Int16) : MetadataPayload :=
  ⟨frameVersionByte, 0, .featureLevel { name, featureLevel }⟩

def ofTopic (topicName : String) (topicUuid : Uuid) : MetadataPayload :=
  ⟨frameVersionByte, 0, .topic { topicName, topicUuid }⟩

def ofPartition (record : PartitionRecord) : MetadataPayload :=
  ⟨frameVersionByte, 1, .partition record⟩

def encode (p : MetadataPayload) : Bytes :=
  ([Value.int8 p.frameVersion, .int8 p.data.type, .int8 p.version] ++ p.data.values).flatMap
    Value.bytes

def read : RawRead MetadataPayload := do
  let frameVersion ← RawRead.int8
  let type ← RawRead.int8
  let version ← RawRead.int8
  let data ← MetadataRecord.read type
  let left := (← get).ahead.length
  if left ≠ 0 then throw (.invalidLength (.trailingMetadata left))
  else return { frameVersion, version, data }

def decode (bs : Bytes) : Except CodecError MetadataPayload :=
  match read (Cursor.start bs) with
  | .ok p _ => .ok p
  | .error e _ => .error e

end MetadataPayload
end BrokerExam
