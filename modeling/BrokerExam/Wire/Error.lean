/-
BrokerExam/Wire/Error.lean

Why bytes cannot be read.  A `CodecError` is the cause alone; a `DecodeError`
also says at which path, and over which bytes, it arose.
-/
import BrokerExam.Field.Path
import BrokerExam.Bytes.Varint
import BrokerExam.Text.Hex

namespace BrokerExam

/-- A length that cannot be meant. -/
inductive BadLength
  | emptyCompactString
  | negativeString (n : Int16)
  | negativeArray (n : Int32)
  /-- A varint length of the named field below `-1`. -/
  | negative (segment : String) (n : Int64)
  | nonPositiveBatch (n : Int32)
  /-- Bytes left over after a whole message. -/
  | trailingMessage (n : Nat) (root : String)
  /-- Bytes left over after a cluster metadata record. -/
  | trailingMetadata (n : Nat)
  /-- A complaint in the words of whoever drives the decoder. -/
  | stated (text : String)
  deriving DecidableEq, Repr

namespace BadLength

def message : BadLength → String
  | emptyCompactString => "Expected COMPACT_STRING length to be > 0, got 0"
  | negativeString n => s!"Expected string length to be -1 or a non-negative number, got {n}"
  | negativeArray n => s!"Expected array length to be -1 or a non-negative number, got {n}"
  | negative segment n => s!"Expected {segment} to be -1 or a non-negative number, got {n}"
  | nonPositiveBatch n => s!"Expected RecordBatch length to be positive, got {n}"
  | trailingMessage n root =>
    s!"unexpected {n} bytes remaining in decoder after decoding {root}"
  | trailingMetadata n =>
    s!"unexpected {n} bytes remaining after decoding cluster metadata record"
  | stated text => text

end BadLength

/-- A declared size that is not the actual one. -/
inductive SizeMismatch
  | record (actual : Nat) (declared : Int64)
  | batch (actual : Nat) (declared : Int32)
  /-- A stream of batches that declares more bytes than there are. -/
  | missingBatchBytes (size remaining : Nat)
  | batchStream (size consumed : Nat)
  deriving DecidableEq, Repr

namespace SizeMismatch

def message : SizeMismatch → String
  | record actual declared =>
    s!"Expected record length to be {actual} (actual size of record), got {declared} instead"
  | batch actual declared =>
    s!"Expected RecordBatch length to be {actual} (actual record length), got {declared}"
  | missingBatchBytes size remaining =>
    s!"RecordBatch byte count was decoded as {size} bytes, got {remaining} bytes remaining"
  | batchStream size consumed =>
    s!"Expected RecordBatch byte count to be {size}, got {consumed} instead"

end SizeMismatch

/-- A value outside the few that are allowed. -/
inductive BadValue
  | boolean (v : Int8)
  | cursorMarker (v : Int8)
  | offsetDelta (v : Int64)
  | magic (expected actual : Int8)
  | metadataRecordType (v : Int8)
  deriving DecidableEq, Repr

namespace BadValue

def message : BadValue → String
  | boolean v => s!"Expected bool to be 1 or 0, got {v}"
  | cursorMarker v => s!"Expected IsCursorPresent to be -1 or 1, got {v}"
  | offsetDelta v => s!"Expected OffsetDelta to fit in an int32, got {v}"
  | magic expected actual => s!"Expected magic byte to be {expected}, got {actual}"
  | metadataRecordType v => s!"Unknown cluster metadata record type: {v}"

end BadValue

inductive CodecError
  /-- Fewer bytes than the named thing takes. -/
  | truncated (what : String) (expected remaining : Nat)
  | malformedVarint (cause : Varint.Malformed)
  | invalidLength (cause : BadLength)
  /-- The checksum computed is not the one received. -/
  | crcMismatch (computed received : UInt32)
  | batchSizeMismatch (cause : SizeMismatch)
  | unsupportedTags (count : UInt64)
  | invalidValue (cause : BadValue)
  deriving DecidableEq, Repr

namespace CodecError

/-- A checksum as eight hexadecimal digits. -/
def showCrc (crc : UInt32) : String :=
  "0x" ++ Hex.ofBytes (BigEndian.encode 4 crc.toNat)

def message : CodecError → String
  | truncated what expected remaining =>
    s!"Expected {what} length to be {expected} bytes, got {remaining} bytes"
  | malformedVarint (.endOfData read) =>
    s!"Unexpected end of data after decoding {read} varint bytes"
  | malformedVarint .overflow =>
    s!"Unexpected unsigned varint overflow after decoding {Varint.maxBytes} bytes"
  | invalidLength cause => cause.message
  | crcMismatch computed received =>
    s!"Expected CRC value for the record batch to be {showCrc computed}, got {showCrc received} instead"
  | batchSizeMismatch cause => cause.message
  | unsupportedTags count => s!"Expected tag buffer to be empty, got {count} tagged fields"
  | invalidValue cause => cause.message

/-- The name of the kind of cause. -/
def kind : CodecError → String
  | truncated .. => "TRUNCATED"
  | malformedVarint _ => "MALFORMED_VARINT"
  | invalidLength _ => "INVALID_LENGTH"
  | crcMismatch .. => "CRC_MISMATCH"
  | batchSizeMismatch _ => "BATCH_SIZE_MISMATCH"
  | unsupportedTags _ => "UNSUPPORTED_TAGS"
  | invalidValue _ => "INVALID_VALUE"

end CodecError

/-- A cause, the path at which it arose, and the bytes `start ≤ · < stop` that it concerns. -/
structure DecodeError where
  path : FieldPath
  start : Nat
  stop : Nat
  cause : CodecError
  deriving DecidableEq, Repr

def DecodeError.message (e : DecodeError) : String := e.cause.message

end BrokerExam
