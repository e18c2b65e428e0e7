/-
BrokerExam/LogDirectory/Read.lean

Reading a log directory back.
-/
import BrokerExam.LogDirectory.Write

namespace BrokerExam.LogDirectory

open Storage Files

/-! ### Names of partition directories -/

/-- The two parts of a text around its last dash. -/
def splitLastDash (cs : List Char) : Option (List Char × List Char) :=
  match cs.reverse.span (· ≠ '-') with
  | (after, _ :: before) => some (before.reverse, after.reverse)
  | (_, []) => none

/-- The topic and the partition that a directory is named for. -/
def partitionOfName? (name : String) : Option (String × Int32) := do
  let (topic, digits) ← splitLastDash name.toList
  if topic = [] then none
  let id ← Numeral.unsigned? digits
  if id < 2147483648 then some (String.ofList topic, Int32.ofNat id) else none

/-! ### Reading -/

variable {m : Type → Type} [Monad m] [Storage m]

/-- The bytes of the log in a partition directory. -/
def readLogFile (directory : String) : Tried m Bytes :=
  let path := join directory logFileName
  attempt (.readLog path) (readFile path)

def readRecordBatches (directory : String) : Tried m (List RecordBatch) := do
  match decodeLog (← readLogFile directory) with
  | .ok batches => return batches
  | .error e => attempting (.decodeLog directory) (fail (.decode e))

/-- The payload of a record, if the record has a value. -/
def readPayload (batch : RecordBatch) (record : Record) : Tried m (Option MetadataPayload) := do
  match record.value with
  | none => return none
  | some value =>
    let sum := batch.baseOffset.toInt + record.offsetDelta.toInt
    let offset := Int64.ofInt sum
    -- computed for every payload, and used only where one cannot be read
    if offset.toInt ≠ sum then throw (.fault .addOverflow)
    match MetadataPayload.decode value with
    | .ok payload => return some payload
    | .error e => attempting (.decodeMetadataRecord offset) (fail (.codec e))

/-- The cluster metadata, in the order of the offsets. -/
def readClusterMetadata (root : String) : Tried m (List MetadataPayload) := do
  let batches ← readRecordBatches (join root metadataDirectoryName)
  let payloads ← batches.mapM fun b => b.records.mapM (readPayload b)
  return payloads.flatten.filterMap id

/-- The batches of partitions, in the order of their topics and ids. -/
abbrev PartitionLogs := List ((String × Int32) × List RecordBatch)

/-- Puts the batches of a partition in their place, instead of those that are there. -/
def PartitionLogs.insert (key : String × Int32) (batches : List RecordBatch) :
    PartitionLogs → PartitionLogs
  | [] => [(key, batches)]
  | (k, old) :: rest =>
    if key = k then (key, batches) :: rest
    else if key.1 < k.1 ∨ key.1 = k.1 ∧ key.2 < k.2 then (key, batches) :: (k, old) :: rest
    else (k, old) :: insert key batches rest

variable [Journal m]

/-- The logs with those of a directory added, if it is a partition's. -/
def readPartition (root : String) (logs : PartitionLogs) (entry : DirectoryEntry) :
    Tried m PartitionLogs := do
  if !entry.isDirectory || entry.name = metadataDirectoryName then return logs
  let path := join root entry.name
  match partitionOfName? entry.name with
  | some key => return logs.insert key (← readRecordBatches path)
  | none =>
    warn s!"Skipping unrecognized directory {path}"
    return logs

/-- The logs of all partitions below the root, cluster metadata aside. -/
def readPartitions (root : String) : Tried m PartitionLogs := do
  let entries ← attempt (.listLogDirectory root) (listDirectory root)
  entries.foldlM (readPartition root) []

end BrokerExam.LogDirectory
