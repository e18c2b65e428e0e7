/-
BrokerExam/Batch/Basic.lean

Record batches, format version 2.  The length of a batch counts the bytes after
the length itself; the checksum covers the bytes from the attributes to the end,
so that a broker can set the base offset and the leader epoch of a batch and
leave both valid.

Length, checksum, magic byte and offset deltas are computed on writing, whatever
the batch holds.  `normalized` is the batch with these values, which is how it
reads back.
-/
import BrokerExam.Batch.Record
import BrokerExam.Bytes.Crc32c

namespace BrokerExam

structure RecordBatch where
  baseOffset : Int64 := 0
  batchLength : Int32 := 0
  partitionLeaderEpoch : Int32 := 0
  magic : Int8 := 2
  crc : UInt32 := 0
  attributes : Int16 := 0
  lastOffsetDelta : Int32 := 0
  firstTimestamp : Int64 := 0
  maxTimestamp : Int64 := 0
  producerId : Int64 := -1
  producerEpoch : Int16 := -1
  baseSequence : Int32 := -1
  records : List Record := []
  deriving DecidableEq, Repr, Inhabited

namespace RecordBatch

/-- The format version. -/
def magicByte : Int8 := 2

/-- The bytes that the batch length counts before those the checksum covers: leader epoch, magic
byte and checksum. -/
def bytesBeforeCovered : Nat := 4 + 1 + 4

/-- The part that the checksum covers.  Reading leaves the other values at their defaults. -/
def covered : Codec RecordBatch RecordBatch := do
  let attributes ← (Codec.int16 "Attributes").on (·.attributes)
  let lastOffsetDelta ← (Codec.int32 "LastOffsetDelta").on (·.lastOffsetDelta)
  let firstTimestamp ← (Codec.int64 "FirstTimestamp").on (·.firstTimestamp)
  let maxTimestamp ← (Codec.int64 "MaxTimestamp").on (·.maxTimestamp)
  let producerId ← (Codec.int64 "ProducerId").on (·.producerId)
  let producerEpoch ← (Codec.int16 "ProducerEpoch").on (·.producerEpoch)
  let baseSequence ← (Codec.int32 "BaseSequence").on (·.baseSequence)
  let records ← (Codec.array "Records" Record.codec).on (·.records)
  return {
    attributes, lastOffsetDelta, firstTimestamp, maxTimestamp
    producerId, producerEpoch, baseSequence, records }

/-- The batch with its offset deltas counted from zero. -/
def numbered (b : RecordBatch) : RecordBatch :=
  { b with
    lastOffsetDelta := Int32.ofNat b.records.length - 1
    records := b.records.mapIdx fun i r => { r with offsetDelta := Int32.ofNat i } }

/-- The bytes that the checksum covers. -/
def coveredBytes (b : RecordBatch) : Bytes := Encoding.bytes (covered.write b.numbered).2

/-- The batch as it reads back once written. -/
def normalized (b : RecordBatch) : RecordBatch :=
  { b.numbered with
    batchLength := Int32.ofNat (b.coveredBytes.length + bytesBeforeCovered)
    magic := magicByte
    crc := crc32c b.coveredBytes }

def encoding (b : RecordBatch) : Encoding :=
  let n := b.normalized
  Encoding.leaf "BaseOffset" (.int64 n.baseOffset)
    ++ Encoding.leaf "BatchLength" (.int32 n.batchLength)
    ++ Encoding.leaf "PartitionLeaderEpoch" (.int32 n.partitionLeaderEpoch)
    ++ Encoding.leaf "Magic" (.int8 n.magic)
    ++ Encoding.leaf "CRC" (Kind.uint32.value n.crc)
    ++ (covered.write b.numbered).2

/-- What follows the length of a batch, which counts every byte of it. -/
def readCounted (baseOffset : Int64) (batchLength : Int32) (lengthAnchor : Anchor) :
    FieldRead RecordBatch := do
  let lengthStart ← FieldRead.offset
  let partitionLeaderEpoch ← FieldRead.field "PartitionLeaderEpoch" Kind.int32
  let (magic, magicAnchor) ← FieldRead.anchored "Magic" Kind.int8
  if magic ≠ magicByte then
    throw (magicAnchor.error (.invalidValue (.magic magicByte magic)))
  else
    let (crc, crcAnchor) ← FieldRead.anchored "CRC" Kind.uint32
    let before := (← get).cursor
    let b ← covered.read
    let stop ← FieldRead.offset
    let actual := stop - lengthStart
    -- a wrong length is told first, since a wrong checksum may only follow from it
    if batchLength.toInt ≠ actual then
      throw (lengthAnchor.error (.batchSizeMismatch (.batch actual batchLength)))
    else
      let computed := crc32c (before.ahead.take (stop - before.offset))
      if computed ≠ crc then throw (crcAnchor.error (.crcMismatch computed crc))
      else return { b with baseOffset, batchLength, partitionLeaderEpoch, magic, crc }

def read : FieldRead RecordBatch := do
  let baseOffset ← FieldRead.field "BaseOffset" Kind.int64
  let (batchLength, lengthAnchor) ← FieldRead.anchored "BatchLength" Kind.int32
  if batchLength ≤ 0 then
    throw (lengthAnchor.error (.invalidLength (.nonPositiveBatch batchLength)))
  else readCounted baseOffset batchLength lengthAnchor

def codec : Codec RecordBatch RecordBatch := ⟨fun b => (b.normalized, b.encoding), read⟩

def bytes (b : RecordBatch) : Bytes := Encoding.bytes b.encoding

/-- The offset of the last record. -/
def lastOffset (b : RecordBatch) : Except Fault Int64 :=
  let sum := b.baseOffset.toInt + b.records.length
  if sum ≠ (Int64.ofInt sum).toInt then .error .addOverflow
  else if sum - 1 ≠ (Int64.ofInt (sum - 1)).toInt then .error .subtractOverflow
  else .ok (Int64.ofInt (sum - 1))

/-- The batch as a broker stores it at an offset. -/
def storedAt (b : RecordBatch) (offset : Int64) : RecordBatch := { b with baseOffset := offset }

end RecordBatch
end BrokerExam
