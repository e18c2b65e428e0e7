/-
BrokerExam/LogDirectory/Write.lean

Making a log directory as planned, and the account of what is in it.
-/
import BrokerExam.Environment
import BrokerExam.Failure
import BrokerExam.LogDirectory.Contents

namespace BrokerExam

structure GeneratedPartition where
  partitionId : Int32
  /-- The batches of the log, in the order of the file. -/
  recordBatches : List RecordBatch
  deriving DecidableEq, Repr

structure GeneratedTopic where
  name : String
  uuid : Uuid
  partitions : List GeneratedPartition
  deriving DecidableEq, Repr

/-- The topics of a log directory as it was made. -/
abbrev GeneratedLogDirectory := List GeneratedTopic

namespace GeneratedLogDirectory

def topic? (made : GeneratedLogDirectory) (name : String) : Option GeneratedTopic :=
  made.find? (·.name = name)

def topicOfUuid? (made : GeneratedLogDirectory) (uuid : Uuid) : Option GeneratedTopic :=
  made.find? (·.uuid = uuid)

end GeneratedLogDirectory

def GeneratedTopic.partition? (t : GeneratedTopic) (id : Int32) : Option GeneratedPartition :=
  t.partitions.find? (·.partitionId = id)

namespace LogDirectory

open Storage Files

variable {m : Type → Type} [Monad m] [Journal m] [Storage m] [Clock m]

def writeText (what : String → Attempt) (path text : String) : Tried m Unit :=
  attempt (what path) (writeFile path (Utf8.encode text))

def writeServerProperties (plan : LogDirectoryPlan) : Tried m Unit := do
  let path := plan.serverPropertiesPath
  match parent? path with
  | some parent => attempt (.createDirectory parent) (createPath parent)
  | none => pure ()
  writeText .writeServerProperties path (serverProperties plan.root)
  debug s!"Wrote server properties to {path}"

def writeMetaProperties (root : String) : Tried m Unit := do
  let path := join root metaPropertiesFileName
  writeText .writeMetaProperties path (metaProperties (← Clock.now))
  debug s!"Wrote meta properties to {path}"

def writeCleanShutdown (root : String) : Tried m Unit := do
  let path := join root cleanShutdownFileName
  writeText .writeCleanShutdown path cleanShutdown
  debug s!"Wrote kafka clean shutdown to {path}"

/-- Writes the files of a partition. -/
def writePartition (directory : String) (topic : Uuid) (partition : PlannedPartition) :
    Tried m GeneratedPartition := do
  attempt (.createPartitionDirectory directory) (createPath directory)
  writeText .writePartitionMetadata (join directory topicIdFileName) (partitionMetadata topic)
  let recordBatches := messageBatches partition.logs
  let path := join directory logFileName
  attempt (.writeLog path) (writeFile path (encodeLog recordBatches))
  debug s!"Wrote {recordBatches.length} record batches for partition {partition.partitionId} at {path}"
  return ⟨partition.partitionId, recordBatches⟩

/-- Writes the partitions of a topic. -/
def writeTopic (plan : LogDirectoryPlan) (topic : PlannedTopic) : Tried m GeneratedTopic := do
  let partitions ← topic.partitions.mapM fun p =>
    writePartition (plan.partitionDirectory topic.name p.partitionId) topic.uuid p
  debug s!"Generated topic {topic.name} ({topic.uuid}) with {partitions.length} partitions"
  return ⟨topic.name, topic.uuid, partitions⟩

/-- Writes the partition from which the broker learns the topics. -/
def writeMetadataPartition (directory : String) (topics : List PlannedTopic) : Tried m Unit := do
  attempt (.createMetadataDirectory directory) (createPath directory)
  let path := join directory logFileName
  attempt (.writeMetadataLog path) (writeFile path (encodeLog (metadataBatches topics)))
  writeText .writeMetadataTopicId (join directory topicIdFileName) (topicIdFile metadataTopicId)
  debug s!"Wrote cluster metadata for {topics.length} topics to {path}"

/-- Makes the log directory of a plan, in place of what was there. -/
def generate (plan : LogDirectoryPlan) : Tried m GeneratedLogDirectory := do
  match plan.check with
  | .error e => fail (.argument e)
  | .ok () => pure ()
  if ← pathExists plan.root then
    attempt (.removeLogDirectory plan.root) (removeDirectory plan.root)
  attempt (.createLogDirectory plan.root) (createPath plan.root)
  writeServerProperties plan
  writeMetaProperties plan.root
  writeCleanShutdown plan.root
  let topics ← plan.topics.mapM (writeTopic plan)
  writeMetadataPartition (join plan.root metadataDirectoryName) plan.topics
  info s!"Generated log directory at {plan.root}"
  return topics

end LogDirectory
end BrokerExam
