/-
BrokerExam/Proofs/Batch/Layout.lean

The layouts of records, batches and streams of batches.  A batch is the one
structure whose reading complains, behind its last field, about fields far back:
its checksum and its length.
-/
import BrokerExam.Proofs.Wire.LaidOut
import BrokerExam.Batch.Stream

namespace BrokerExam

variable {α β : Type} {l : Layout}

/-! ### Parts of records -/

namespace Codec

variable (lengthSegment segment name : String)

instance : (varintBytes lengthSegment segment).LaidOut
    (.both (.leaf lengthSegment .varint) (.leaf segment .rawBytes)) := by
  refine ⟨Orderly.anchored_bind .both .varint (fun _ => rfl) fun length anchor => ?_⟩
  show Orderly _ _ (if length = -1 then _ else if length < -1 then _ else _)
  split
  · exact Orderly.pure none
  · split
    · exact Orderly.throw List.mem_cons_self _
    · exact (Orderly.field (.rawBytes _) fun _ => rfl).map some

instance {element : Codec α β} [h : element.LaidOut l] :
    (varintArray lengthSegment name element).LaidOut
      (.both (.leaf lengthSegment .varint) (.elements name l)) := by
  refine ⟨Orderly.anchored_bind .both .varint (fun _ => rfl) fun length anchor => ?_⟩
  show Orderly _ _ (if length < -1 then _ else _)
  split
  · exact Orderly.throw List.mem_cons_self _
  · exact (h.orderly_with _).repeated_scope _

instance {c : Codec α β} [h : c.LaidOut l] :
    (sized segment c).LaidOut (.both (.leaf segment .varint) l) := by
  refine ⟨Orderly.anchored_bind .both .varint (fun _ => rfl) fun declared anchor => ?_⟩
  -- the size is held against the offset on both sides of what it counts
  refine Orderly.offset fun start => Orderly.bind .nothing (h.orderly_with _) fun b => ?_
  refine Orderly.offset fun stop => ?_
  show Orderly _ _ (if declared.toInt = _ then _ else _)
  split
  · exact Orderly.pure b
  · exact Orderly.throw List.mem_cons_self _

instance : (narrowVarint segment).LaidOut (.leaf segment .varint) := by
  refine ⟨Orderly.anchored_bind .nothing .varint (fun _ => rfl) fun v anchor => ?_⟩
  show Orderly _ _ (if v.toInt32.toInt64 = v then _ else _)
  split
  · exact Orderly.pure v.toInt32
  · exact Orderly.throw List.mem_cons_self _

end Codec

/-! ### Records -/

open Layout in
def RecordHeader.layout : Layout :=
  both (both (leaf "KeyLength" .varint) (leaf "Key" .rawBytes))
    (both (both (leaf "ValueLength" .varint) (leaf "Value" .rawBytes)) nothing)

instance : RecordHeader.codec.LaidOut RecordHeader.layout := by
  unfold RecordHeader.codec RecordHeader.layout
  infer_instance

namespace Record

open Layout in
def contentsLayout : Layout :=
  both (leaf "Attributes" .int8) <| both (leaf "TimestampDelta" .varint) <|
  both (leaf "OffsetDelta" .varint) <|
  both (both (leaf "KeyLength" .varint) (leaf "Key" .rawBytes)) <|
  both (both (leaf "ValueLength" .varint) (leaf "Value" .rawBytes)) <|
  both (both (leaf "HeadersLength" .varint) (elements "Headers" RecordHeader.layout)) nothing

instance : contents.LaidOut contentsLayout := by
  unfold contents contentsLayout
  infer_instance

def layout : Layout := .both (.leaf "Size" .varint) contentsLayout

instance : codec.LaidOut layout := by
  unfold codec layout
  infer_instance

end Record

/-! ### Batches -/

namespace RecordBatch

open Layout in
def coveredLayout : Layout :=
  both (leaf "Attributes" .int16) <| both (leaf "LastOffsetDelta" .int32) <|
  both (leaf "FirstTimestamp" .int64) <| both (leaf "MaxTimestamp" .int64) <|
  both (leaf "ProducerId" .int64) <| both (leaf "ProducerEpoch" .int16) <|
  both (leaf "BaseSequence" .int32) <| both (array .int32 "Records" Record.layout) nothing

instance : covered.LaidOut coveredLayout := by
  unfold covered coveredLayout
  infer_instance

open Layout in
def layout : Layout :=
  both (leaf "BaseOffset" .int64) <| both (leaf "BatchLength" .int32) <|
  both (leaf "PartitionLeaderEpoch" .int32) <| both (leaf "Magic" .int8) <|
  both (leaf "CRC" .int32) coveredLayout

/-- What the length of a batch counts is read in an orderly way: what is found wrong with it behind
the last record is blamed on the length, or on the checksum. -/
theorem orderly_readCounted (baseOffset : Int64) (batchLength : Int32) {lengthAnchor : Anchor}
    {anchors : List Anchor} (given : lengthAnchor ∈ anchors) :
    Orderly (.both (.leaf "PartitionLeaderEpoch" .int32) (.both (.leaf "Magic" .int8)
        (.both (.leaf "CRC" .int32) coveredLayout))) anchors
      (readCounted baseOffset batchLength lengthAnchor) := by
  refine Orderly.offset fun lengthStart => Orderly.bind .both
    (Orderly.field (.plain .int32) fun _ => rfl) fun epoch => ?_
  refine Orderly.anchored_bind .both .int8 (fun _ => rfl) fun magic magicAnchor => ?_
  show Orderly _ _ (if magic ≠ magicByte then _ else _)
  split
  · exact Orderly.throw List.mem_cons_self _
  · refine Orderly.anchored_bind .both .uint32 (fun _ => rfl) fun crc crcAnchor => ?_
    have covered : Orderly coveredLayout (crcAnchor :: magicAnchor :: anchors) covered.read :=
      Codec.LaidOut.orderly_with inferInstance _
    refine Orderly.get fun before => Orderly.bind .nothing covered fun b => ?_
    refine Orderly.offset fun stop => ?_
    show Orderly _ _ (if batchLength.toInt ≠ _ then _ else _)
    split
    · exact Orderly.throw (List.mem_cons_of_mem _ (List.mem_cons_of_mem _ given)) _
    · show Orderly _ _ (if crc32c _ ≠ crc then _ else _)
      split
      · exact Orderly.throw List.mem_cons_self _
      · exact Orderly.pure _

instance : codec.LaidOut layout := by
  refine ⟨Orderly.bind .both (Orderly.field (.plain .int64) fun _ => rfl) fun baseOffset => ?_⟩
  refine Orderly.anchored_bind .both .int32 (fun _ => rfl) fun batchLength lengthAnchor => ?_
  show Orderly _ _ (if batchLength ≤ 0 then _ else _)
  split
  · exact Orderly.throw List.mem_cons_self _
  · exact orderly_readCounted baseOffset batchLength List.mem_cons_self

end RecordBatch

/-! ### Streams -/

/-- A stream that does not fill its size blames the size. -/
theorem orderly_batchesIn (name : String) (size : Nat) {sizeAnchor : Anchor} {anchors : List Anchor}
    (given : sizeAnchor ∈ anchors) :
    Orderly (.elements name RecordBatch.layout) anchors
      (FieldRead.batchesIn name size sizeAnchor) := by
  refine Orderly.remaining fun remaining => ?_
  split
  · exact Orderly.throw given _
  · have batch : Orderly RecordBatch.layout anchors RecordBatch.read :=
      Codec.LaidOut.orderly_with (c := RecordBatch.codec) inferInstance anchors
    refine Orderly.offset fun start => Orderly.bind .nothing (batch.all.bounded size) fun bs => ?_
    refine Orderly.offset fun stop => ?_
    dsimp only
    split
    · exact Orderly.throw given _
    · exact Orderly.pure bs

/-- The layout of a stream of batches behind its size. -/
def RecordBatch.streamLayout (name : String) : Layout :=
  .scope name (.both (.leaf "Size" .compactRecordSize) (.elements name RecordBatch.layout))

instance (name : String) : (Codec.batchStream name).LaidOut (RecordBatch.streamLayout name) := by
  refine ⟨Orderly.scope name ?_⟩
  refine Orderly.anchored_bind .both .compactRecordSize (fun _ => rfl) fun raw anchor => ?_
  show Orderly _ _ (if raw ≤ 1 then _ else _)
  split
  · exact Orderly.pure []
  · exact orderly_batchesIn name _ List.mem_cons_self

end BrokerExam
