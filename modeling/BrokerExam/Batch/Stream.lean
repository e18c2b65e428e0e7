/-
BrokerExam/Batch/Stream.lean

Batches one after the other: the contents of a log file (`encodeLog`,
`decodeLog`), and the stream inside a message (`Codec.batchStream`), which is
preceded by its size in bytes, counted one more; zero and one both stand for an
empty stream.
-/
import BrokerExam.Batch.Basic

namespace BrokerExam

/-- The batches of a log file. -/
def encodeLog (batches : List RecordBatch) : Bytes := batches.flatMap RecordBatch.bytes

/-- Reads batches until no byte is left. -/
def readLog : FieldRead (List RecordBatch) :=
  FieldRead.scope "RecordBatches" (FieldRead.all "RecordBatches" RecordBatch.read)

def decodeLog (bs : Bytes) : Except DecodeError (List RecordBatch) :=
  match readLog (ReadState.start bs ()) with
  | .ok batches _ => .ok batches
  | .error e _ => .error e

/-- The batches in the next `size` bytes, which they must fill. -/
def FieldRead.batchesIn (name : String) (size : Nat) (sizeAnchor : Anchor) :
    FieldRead (List RecordBatch) := do
  let remaining ← FieldRead.remaining
  if remaining < size then
    throw (sizeAnchor.error (.batchSizeMismatch (.missingBatchBytes size remaining)))
  else
    let start ← FieldRead.offset
    let batches ← FieldRead.bounded size (FieldRead.all name RecordBatch.read)
    let consumed := (← FieldRead.offset) - start
    if consumed ≠ size then
      throw (sizeAnchor.error (.batchSizeMismatch (.batchStream size consumed)))
    else pure batches

/-- Reads a stream of batches that declares its size. -/
def FieldRead.batchStream (name : String) : FieldRead (List RecordBatch) :=
  FieldRead.scope name do
    let (raw, anchor) ← FieldRead.anchored "Size" Kind.compactRecordSize
    if raw ≤ 1 then pure [] else FieldRead.batchesIn name (raw.toNat - 1) anchor

/-- A stream of batches behind its size. -/
def Codec.batchStream (name : String) : Codec (List RecordBatch) (List RecordBatch) :=
  { write := fun batches =>
      let (normalized, es) := RecordBatch.codec.writeItems batches
      let size := (encodeLog batches).length
      (normalized, Encoding.scope name
        (Encoding.leaf "Size" (.compactRecordSize (UInt64.ofNat (size + 1)))
          ++ Encoding.items name es))
    read := FieldRead.batchStream name }

end BrokerExam
