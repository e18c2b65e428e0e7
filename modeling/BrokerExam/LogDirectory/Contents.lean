/-
BrokerExam/LogDirectory/Contents.lean

What the files of a log directory hold.  A broker that starts on the directory
learns from `server.properties` where it is, from `meta.properties` whose it is,
and from the cluster metadata log which topics and partitions there are.
-/
import BrokerExam.Batch.Stream
import BrokerExam.LogDirectory.Plan
import BrokerExam.Message.Draft
import BrokerExam.Metadata.Payload
import BrokerExam.Text.Base64
import BrokerExam.Text.Utf8

namespace BrokerExam.LogDirectory

/-! ### Names and identities -/

/-- The first segment of a log; its name is the offset of the first record. -/
def logFileName : String := "00000000000000000000.log"

def metadataDirectoryName : String := "__cluster_metadata-0"

def topicIdFileName : String := "partition.metadata"

def cleanShutdownFileName : String := ".kafka_cleanshutdown"

def metaPropertiesFileName : String := "meta.properties"

/-- The directory's own identity, which every partition record names. -/
def directoryUuid : Uuid := ⟨0x10000000000040008000000000000001⟩

/-- The identity of the metadata topic, in base64. -/
def metadataTopicId : String := "AAAAAAAAAAAAAAAAAAAAAQ"

/-- The identity of the cluster, in base64. -/
def clusterId : String := "IAAAAAAAQACAAAAAAAAAAQ"

/-- The one node of the cluster. -/
def nodeId : Int32 := 1

/-- A topic's identity as the broker's files have it. -/
def uuidText (u : Uuid) : String := Base64.ofBytes u.toBytes

/-! ### Text files -/

/-- The configuration of a node that is both broker and controller. -/
def serverProperties (root : String) : String :=
  "\n".intercalate [
    "process.roles=broker,controller",
    s!"node.id={nodeId}",
    s!"controller.quorum.voters={nodeId}@localhost:9093",
    "listeners=PLAINTEXT://:9092,CONTROLLER://:9093",
    "controller.listener.names=CONTROLLER",
    "listener.security.protocol.map=CONTROLLER:PLAINTEXT,PLAINTEXT:PLAINTEXT,SSL:SSL,"
      ++ "SASL_PLAINTEXT:SASL_PLAINTEXT,SASL_SSL:SASL_SSL",
    s!"log.dirs={root}"]

/-- Whose the directory is, with the time at which it was made in milliseconds; a time before the
epoch counts as zero. -/
def metaProperties (madeAt : Int) : String :=
  s!"#\n#{madeAt.toNat}\ncluster.id={clusterId}\ndirectory.id={uuidText directoryUuid}\n"
    ++ s!"node.id={nodeId}\nversion=1\n"

/-- The mark of a broker that was shut down properly. -/
def cleanShutdown : String := "\x7b\"version\":0,\"brokerEpoch\":10\x7d"

def topicIdFile (id : String) : String := s!"version: 0\ntopic_id: {id}"

/-- The identity of the topic, beside the log of each of its partitions. -/
def partitionMetadata (topic : Uuid) : String := topicIdFile (uuidText topic)

/-! ### Logs -/

/-- The timestamp of every message. -/
def messageTimestamp : Int64 := 1726045973899

def featureLevelTimestamp : Int64 := 1726045943832

def topicTimestamp : Int64 := 1726045957397

/-- The feature level of `metadata.version`. -/
def metadataVersion : Int16 := 20

/-- The batch that holds a message, at its offset. -/
def messageBatch (offset : Nat) (message : String) : RecordBatch :=
  (({ baseOffset := Int64.ofNat offset } : RecordBatch).withTimestamp messageTimestamp
    |>.withProducer 0 0 0 |>.addValue (Utf8.encode message)).normalized

/-- A batch for each message. -/
def messageBatches (messages : List String) : List RecordBatch :=
  messages.mapIdx messageBatch

def payloadRecord (payload : MetadataPayload) : Record := { value := some payload.encode }

/-- A batch of cluster metadata, from an offset on. -/
def metadataBatch (baseOffset : Int64) (timestamp : Int64) (payloads : List MetadataPayload) :
    RecordBatch :=
  ({ (({ baseOffset } : RecordBatch).withTimestamp timestamp) with
      partitionLeaderEpoch := 1
      records := payloads.map payloadRecord } : RecordBatch).normalized

/-- A partition that the one node leads, and keeps in the one directory. -/
def partitionRecord (topic : Uuid) (partition : PlannedPartition) : PartitionRecord :=
  { partitionId := partition.partitionId
    topicUuid := topic
    replicas := [nodeId]
    isr := [nodeId]
    removingReplicas := []
    addingReplicas := []
    leader := nodeId
    leaderEpoch := 0
    partitionEpoch := 0
    directories := [directoryUuid] }

/-- The topic and then its partitions. -/
def topicPayloads (topic : PlannedTopic) : List MetadataPayload :=
  .ofTopic topic.name topic.uuid
    :: topic.partitions.map fun p => .ofPartition (partitionRecord topic.uuid p)

/-- A batch for each topic, with offsets that run on from `offset`. -/
def topicBatches (offset : Int64) : List PlannedTopic → List RecordBatch
  | [] => []
  | topic :: topics =>
    let payloads := topicPayloads topic
    metadataBatch offset topicTimestamp payloads
      :: topicBatches (offset + Int64.ofNat payloads.length) topics

/-- The cluster metadata log: the feature level, and then the topics. -/
def metadataBatches (topics : List PlannedTopic) : List RecordBatch :=
  metadataBatch 0 featureLevelTimestamp [.ofFeatureLevel "metadata.version" metadataVersion]
    :: topicBatches 1 topics

end BrokerExam.LogDirectory
