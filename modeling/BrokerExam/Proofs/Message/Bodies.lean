/-
BrokerExam/Proofs/Message/Bodies.lean

The bodies of all messages are lawful, those with record batches as long as the
batches fit their lengths.  What reads back is the body itself, or the body with
its batches in normal form.

Everything else follows from the way a body is put together, so that a field
that is added to one shows up in none of these proofs.
-/
import BrokerExam.Proofs.Batch.Stream
import BrokerExam.Proofs.Message.Basic
import BrokerExam.Message.ApiVersions
import BrokerExam.Message.DescribeTopicPartitions
import BrokerExam.Message.Fetch
import BrokerExam.Message.Produce

namespace BrokerExam

/-! ### ApiVersions -/

instance : (RequestBody.codec (β := ApiVersionsRequestBody)).Lawful :=
  inferInstanceAs (Codec.scope "Body" _).Lawful

instance : ApiKeyVersions.codec.Lawful := by
  unfold ApiKeyVersions.codec
  infer_instance

instance : ApiKeyVersions.codec.Solid := by
  unfold ApiKeyVersions.codec
  infer_instance

namespace ApiVersionsResponseBody

instance (errorCode : Int16) : (afterErrorCode errorCode).Lawful := by
  unfold afterErrorCode
  infer_instance

/-- A body is read as it was written if it does not end after its error code. -/
theorem codec_lawfulOn : (ResponseBody.codec (β := ApiVersionsResponseBody)).LawfulOn
    fun b => b.errorCode ≠ ErrorCode.unsupportedVersion.code := by
  refine .scope "Body" (.bind_written .of fun errorCode => ?_)
  split
  · next unsupported =>
    -- what is written behind this error code is not read, but no body here has it
    have other {b : ApiVersionsResponseBody}
        (h : b.errorCode ≠ ErrorCode.unsupportedVersion.code ∧ b.errorCode = errorCode) : False :=
      h.1 (h.2.trans unsupported)
    exact {
      reads := fun _ h => (other h).elim
      short := fun _ h => (other h).elim
      isLocal := FieldRead.Local.bind (FieldRead.Local.pure ()) fun _ => FieldRead.Local.pure _ }
  · exact .of

theorem codec_write_fst {b : ApiVersionsResponseBody}
    (h : b.errorCode ≠ ErrorCode.unsupportedVersion.code) :
    (ResponseBody.codec.write b).1 = b := by
  have keys : b.apiKeys.map (fun v => (ApiKeyVersions.codec.write v).1) = b.apiKeys :=
    List.map_id' b.apiKeys
  show ((if b.errorCode = ErrorCode.unsupportedVersion.code then _ else
    afterErrorCode b.errorCode :
      Codec ApiVersionsResponseBody ApiVersionsResponseBody).write b).1 = b
  rw [if_neg h]
  show ({ b with apiKeys := b.apiKeys.map fun v => (ApiKeyVersions.codec.write v).1 } :
    ApiVersionsResponseBody) = b
  rw [keys]

end ApiVersionsResponseBody

/-! ### DescribeTopicPartitions -/

instance : PageCursor.fields.Lawful := by
  unfold PageCursor.fields
  infer_instance

/-- What is read behind the marker of a cursor. -/
def PageCursor.behindMarker (marker : Int8) (anchor : Anchor) : FieldRead (Option PageCursor) :=
  if marker = -1 then pure none
  else if marker = 1 then some <$> fields.read
  else throw (anchor.error (.invalidValue (.cursorMarker marker)))

theorem PageCursor.codec_read_eq :
    codec.read = FieldRead.scope "Cursor" (FieldRead.anchored "IsCursorPresent" Kind.int8 >>=
      fun marked => behindMarker marked.1 marked.2) := rfl

theorem PageCursor.localFamily_behindMarker (marker : Int8) :
    FieldRead.LocalFamily (behindMarker marker) := by
  unfold behindMarker
  split
  · exact (FieldRead.Local.pure none).family
  · split
    · have fields : FieldRead.Local PageCursor.fields.read := Codec.Lawful.on_all.isLocal
      exact (fields.map some).family
    · exact FieldRead.LocalFamily.throw _

instance : PageCursor.codec.Lawful where
  on_all := .scope "Cursor" {
    reads := fun page? _ small => by
      cases page? with
      | none =>
        exact ReadsBack.anchored_bind "IsCursorPresent" (RawRead.reads_int8 (-1))
          fun _ => ReadsBack.pure none
      | some page =>
        have fits : (PageCursor.fields.write page).2.bytes.length < 0x8000000000000000 := by
          change (Encoding.bytes (Encoding.leaf "IsCursorPresent" (.int8 1) ++
            (PageCursor.fields.write page).2)).length < _ at small
          rw [Encoding.bytes_append, List.length_append] at small
          exact Nat.lt_of_le_of_lt (Nat.le_add_left _ _) small
        have fields := Codec.Lawful.on_all.reads page trivial fits
        exact ReadsBack.anchored_bind "IsCursorPresent" (RawRead.reads_int8 1)
          fun _ => fields.map some
    short := fun page? _ => by
      cases page? with
      | none => exact Encoding.Short.leaf "IsCursorPresent" rfl
      | some page =>
        have fields : (PageCursor.fields.write page).2.Short :=
          Codec.Lawful.on_all.short page trivial
        exact (Encoding.Short.leaf "IsCursorPresent" rfl).append fields
    isLocal := FieldRead.Local.anchored_bind "IsCursorPresent" Kind.Plain.int8.isLocal
      PageCursor.localFamily_behindMarker }

@[simp] theorem PageCursor.codec_write_fst (page? : Option PageCursor) :
    (PageCursor.codec.write page?).1 = page? := by
  cases page? <;> rfl

instance : describedName.Lawful := by
  unfold describedName
  infer_instance

instance : describedName.Solid := by
  unfold describedName
  infer_instance

instance : (RequestBody.codec (β := DescribeTopicPartitionsRequestBody)).Lawful :=
  inferInstanceAs (Codec.scope "Body" _).Lawful

theorem DescribeTopicPartitionsRequestBody.codec_write_fst
    (b : DescribeTopicPartitionsRequestBody) : (RequestBody.codec.write b).1 = b := by
  have names : b.topicNames.map (fun n => (describedName.write n).1) = b.topicNames :=
    List.map_id' b.topicNames
  show ({ b with
    topicNames := b.topicNames.map fun n => (describedName.write n).1
    cursor := (PageCursor.codec.write b.cursor).1 } : DescribeTopicPartitionsRequestBody) = b
  rw [names, PageCursor.codec_write_fst]

instance : DescribedPartition.codec.Lawful := by
  unfold DescribedPartition.codec
  infer_instance

instance : DescribedPartition.codec.Solid := by
  unfold DescribedPartition.codec
  infer_instance

instance : DescribedTopic.codec.Lawful := by
  unfold DescribedTopic.codec
  infer_instance

instance : DescribedTopic.codec.Solid := by
  unfold DescribedTopic.codec
  infer_instance

@[simp] theorem DescribedTopic.codec_write_fst (t : DescribedTopic) :
    (DescribedTopic.codec.write t).1 = t := by
  have partitions : t.partitions.map (fun p => (DescribedPartition.codec.write p).1)
      = t.partitions := List.map_id' t.partitions
  show ({ t with partitions := t.partitions.map fun p => (DescribedPartition.codec.write p).1 } :
    DescribedTopic) = t
  rw [partitions]

instance : (ResponseBody.codec (β := DescribeTopicPartitionsResponseBody)).Lawful :=
  inferInstanceAs (Codec.scope "Body" _).Lawful

theorem DescribeTopicPartitionsResponseBody.codec_write_fst
    (b : DescribeTopicPartitionsResponseBody) : (ResponseBody.codec.write b).1 = b := by
  have topics : b.topics.map (fun t => (DescribedTopic.codec.write t).1) = b.topics := by
    simp only [DescribedTopic.codec_write_fst, List.map_id']
  show ({ b with
    topics := b.topics.map fun t => (DescribedTopic.codec.write t).1
    nextCursor := (PageCursor.codec.write b.nextCursor).1 } :
      DescribeTopicPartitionsResponseBody) = b
  rw [topics, PageCursor.codec_write_fst]

/-! ### Fetch -/

instance : FetchRequestPartition.codec.Lawful := by
  unfold FetchRequestPartition.codec
  infer_instance

instance : FetchRequestPartition.codec.Solid := by
  unfold FetchRequestPartition.codec
  infer_instance

instance : FetchRequestTopic.codec.Lawful := by
  unfold FetchRequestTopic.codec
  infer_instance

instance : FetchRequestTopic.codec.Solid := by
  unfold FetchRequestTopic.codec
  infer_instance

@[simp] theorem FetchRequestTopic.codec_write_fst (t : FetchRequestTopic) :
    (FetchRequestTopic.codec.write t).1 = t := by
  have partitions : t.partitions.map (fun p => (FetchRequestPartition.codec.write p).1)
      = t.partitions := List.map_id' t.partitions
  show ({ t with partitions := t.partitions.map fun p => (FetchRequestPartition.codec.write p).1 } :
    FetchRequestTopic) = t
  rw [partitions]

instance : ForgottenTopic.codec.Lawful := by
  unfold ForgottenTopic.codec
  infer_instance

instance : ForgottenTopic.codec.Solid := by
  unfold ForgottenTopic.codec
  infer_instance

instance : (RequestBody.codec (β := FetchRequestBody)).Lawful :=
  inferInstanceAs (Codec.scope "Body" _).Lawful

theorem FetchRequestBody.codec_write_fst (b : FetchRequestBody) :
    (RequestBody.codec.write b).1 = b := by
  have topics : b.topics.map (fun t => (FetchRequestTopic.codec.write t).1) = b.topics := by
    simp only [FetchRequestTopic.codec_write_fst, List.map_id']
  have forgotten : b.forgottenTopics.map (fun t => (ForgottenTopic.codec.write t).1)
      = b.forgottenTopics := List.map_id' b.forgottenTopics
  show ({ b with
    topics := b.topics.map fun t => (FetchRequestTopic.codec.write t).1
    forgottenTopics := b.forgottenTopics.map fun t => (ForgottenTopic.codec.write t).1 } :
      FetchRequestBody) = b
  rw [topics, forgotten]

instance : AbortedTransaction.codec.Lawful := by
  unfold AbortedTransaction.codec
  infer_instance

instance : AbortedTransaction.codec.Solid := by
  unfold AbortedTransaction.codec
  infer_instance

namespace FetchedPartition

def Fits (p : FetchedPartition) : Prop := ∀ b ∈ p.recordBatches, b.Fits

/-- The partition with its batches in normal form. -/
def normalized (p : FetchedPartition) : FetchedPartition :=
  { p with recordBatches := p.recordBatches.map RecordBatch.normalized }

theorem codec_lawfulOn : codec.LawfulOn Fits :=
  .bind .of fun _ => .bind .of fun _ => .bind .of fun _ => .bind .of fun _ => .bind .of fun _ =>
  .bind .of fun _ => .bind .of fun _ =>
  .bind (.on (batchStream_lawfulOn "RecordBatches") fun _ fits => fits) fun _ => .of

instance : codec.Solid := by
  unfold codec
  infer_instance

@[simp] theorem codec_write_fst (p : FetchedPartition) : (codec.write p).1 = p.normalized := by
  have transactions : p.abortedTransactions.map (fun a => (AbortedTransaction.codec.write a).1)
      = p.abortedTransactions := List.map_id' p.abortedTransactions
  show ({ p with
    abortedTransactions := p.abortedTransactions.map fun a => (AbortedTransaction.codec.write a).1
    recordBatches := ((Codec.batchStream "RecordBatches").write p.recordBatches).1 } :
      FetchedPartition) = _
  rw [transactions, batchStream_write_fst, normalized]

end FetchedPartition

namespace FetchedTopic

def Fits (t : FetchedTopic) : Prop := ∀ p ∈ t.partitions, p.Fits

/-- The topic with its batches in normal form. -/
def normalized (t : FetchedTopic) : FetchedTopic :=
  { t with partitions := t.partitions.map FetchedPartition.normalized }

theorem codec_lawfulOn : codec.LawfulOn Fits :=
  .bind .of fun _ =>
  .bind (.on (.compactArray "Partitions" FetchedPartition.codec_lawfulOn) fun _ fits => fits)
    fun _ => .of

instance : codec.Solid := by
  unfold codec
  infer_instance

@[simp] theorem codec_write_fst (t : FetchedTopic) : (codec.write t).1 = t.normalized := by
  show ({ t with partitions := t.partitions.map fun p => (FetchedPartition.codec.write p).1 } :
    FetchedTopic) = _
  simp only [FetchedPartition.codec_write_fst]
  rfl

end FetchedTopic

namespace FetchResponseBody

/-- Every batch fits its length. -/
def Fits (b : FetchResponseBody) : Prop := ∀ t ∈ b.topics, t.Fits

/-- The body with its batches in normal form. -/
def normalized (b : FetchResponseBody) : FetchResponseBody :=
  { b with topics := b.topics.map FetchedTopic.normalized }

theorem codec_lawfulOn : (ResponseBody.codec (β := FetchResponseBody)).LawfulOn Fits :=
  .scope "Body" <|
    .bind .of fun _ => .bind .of fun _ => .bind .of fun _ =>
    .bind (.on (.compactArray "Topics" FetchedTopic.codec_lawfulOn) fun _ fits => fits) fun _ => .of

theorem codec_write_fst (b : FetchResponseBody) :
    (ResponseBody.codec.write b).1 = b.normalized := by
  show ({ b with topics := b.topics.map fun t => (FetchedTopic.codec.write t).1 } :
    FetchResponseBody) = _
  simp only [FetchedTopic.codec_write_fst]
  rfl

end FetchResponseBody

/-! ### Produce -/

namespace ProduceRequestPartition

def Fits (p : ProduceRequestPartition) : Prop := ∀ b ∈ p.recordBatches, b.Fits

/-- The partition with its batches in normal form. -/
def normalized (p : ProduceRequestPartition) : ProduceRequestPartition :=
  { p with recordBatches := p.recordBatches.map RecordBatch.normalized }

theorem codec_lawfulOn : codec.LawfulOn Fits :=
  .bind .of fun _ =>
  .bind (.on (batchStream_lawfulOn "RecordBatches") fun _ fits => fits) fun _ => .of

instance : codec.Solid := by
  unfold codec
  infer_instance

@[simp] theorem codec_write_fst (p : ProduceRequestPartition) :
    (codec.write p).1 = p.normalized := by
  show ({ p with
    recordBatches := ((Codec.batchStream "RecordBatches").write p.recordBatches).1 } :
      ProduceRequestPartition) = _
  rw [batchStream_write_fst, normalized]

/-- What is short enough for a frame is short enough for the lengths of its batches. -/
theorem fits_of_length {p : ProduceRequestPartition}
    (h : (codec.write p).2.bytes.length < 0x80000000) : p.Fits := by
  intro b hb
  have batch := length_batch_le hb "RecordBatches"
  simp only [codec, Codec.length_bytes_bind, Codec.on] at h
  exact RecordBatch.fits_of_length (by omega)

end ProduceRequestPartition

namespace ProduceRequestTopic

def Fits (t : ProduceRequestTopic) : Prop := ∀ p ∈ t.partitions, p.Fits

/-- The topic with its batches in normal form. -/
def normalized (t : ProduceRequestTopic) : ProduceRequestTopic :=
  { t with partitions := t.partitions.map ProduceRequestPartition.normalized }

theorem codec_lawfulOn : codec.LawfulOn Fits :=
  .bind .of fun _ =>
  .bind (.on (.compactArray "Partitions" ProduceRequestPartition.codec_lawfulOn)
    fun _ fits => fits) fun _ => .of

instance : codec.Solid := by
  unfold codec
  infer_instance

@[simp] theorem codec_write_fst (t : ProduceRequestTopic) : (codec.write t).1 = t.normalized := by
  show ({ t with
    partitions := t.partitions.map fun p => (ProduceRequestPartition.codec.write p).1 } :
      ProduceRequestTopic) = _
  simp only [ProduceRequestPartition.codec_write_fst]
  rfl

theorem fits_of_length {t : ProduceRequestTopic} (h : (codec.write t).2.bytes.length < 0x80000000) :
    t.Fits := by
  intro p hp
  have partition : (ProduceRequestPartition.codec.write p).2.bytes.length ≤ _ :=
    Codec.length_element_le hp "Partitions"
  simp only [codec, Codec.length_bytes_bind, Codec.on] at h
  exact ProduceRequestPartition.fits_of_length (by omega)

end ProduceRequestTopic

namespace ProduceRequestBody

/-- Every batch fits its length. -/
def Fits (b : ProduceRequestBody) : Prop := ∀ t ∈ b.topics, t.Fits

/-- The body with its batches in normal form. -/
def normalized (b : ProduceRequestBody) : ProduceRequestBody :=
  { b with topics := b.topics.map ProduceRequestTopic.normalized }

theorem codec_lawfulOn : (RequestBody.codec (β := ProduceRequestBody)).LawfulOn Fits :=
  .scope "Body" <|
    .bind .of fun _ => .bind .of fun _ => .bind .of fun _ =>
    .bind (.on (.compactArray "Topics" ProduceRequestTopic.codec_lawfulOn) fun _ fits => fits)
      fun _ => .of

theorem codec_write_fst (b : ProduceRequestBody) :
    (RequestBody.codec.write b).1 = b.normalized := by
  show ({ b with topics := b.topics.map fun t => (ProduceRequestTopic.codec.write t).1 } :
    ProduceRequestBody) = _
  simp only [ProduceRequestTopic.codec_write_fst]
  rfl

theorem fits_of_length {b : ProduceRequestBody}
    (h : (RequestBody.codec.write b).2.bytes.length < 0x80000000) : b.Fits := by
  intro t ht
  have topic : (ProduceRequestTopic.codec.write t).2.bytes.length ≤ _ :=
    Codec.length_element_le ht "Topics"
  simp only [RequestBody.codec, Codec.scope, Encoding.bytes_scope, Codec.length_bytes_bind,
    Codec.on] at h
  exact ProduceRequestTopic.fits_of_length (by omega)

end ProduceRequestBody

instance : RecordError.codec.Lawful := by
  unfold RecordError.codec
  infer_instance

instance : RecordError.codec.Solid := by
  unfold RecordError.codec
  infer_instance

instance : ProducedPartition.codec.Lawful := by
  unfold ProducedPartition.codec
  infer_instance

instance : ProducedPartition.codec.Solid := by
  unfold ProducedPartition.codec
  infer_instance

@[simp] theorem ProducedPartition.codec_write_fst (p : ProducedPartition) :
    (ProducedPartition.codec.write p).1 = p := by
  have errors : p.recordErrors.map (fun e => (RecordError.codec.write e).1) = p.recordErrors :=
    List.map_id' p.recordErrors
  show ({ p with recordErrors := p.recordErrors.map fun e => (RecordError.codec.write e).1 } :
    ProducedPartition) = p
  rw [errors]

instance : ProducedTopic.codec.Lawful := by
  unfold ProducedTopic.codec
  infer_instance

instance : ProducedTopic.codec.Solid := by
  unfold ProducedTopic.codec
  infer_instance

@[simp] theorem ProducedTopic.codec_write_fst (t : ProducedTopic) :
    (ProducedTopic.codec.write t).1 = t := by
  have partitions : t.partitions.map (fun p => (ProducedPartition.codec.write p).1)
      = t.partitions := by
    simp only [ProducedPartition.codec_write_fst, List.map_id']
  show ({ t with partitions := t.partitions.map fun p => (ProducedPartition.codec.write p).1 } :
    ProducedTopic) = t
  rw [partitions]

instance : (ResponseBody.codec (β := ProduceResponseBody)).Lawful :=
  inferInstanceAs (Codec.scope "Body" _).Lawful

theorem ProduceResponseBody.codec_write_fst (b : ProduceResponseBody) :
    (ResponseBody.codec.write b).1 = b := by
  have topics : b.topics.map (fun t => (ProducedTopic.codec.write t).1) = b.topics := by
    simp only [ProducedTopic.codec_write_fst, List.map_id']
  show ({ b with topics := b.topics.map fun t => (ProducedTopic.codec.write t).1 } :
    ProduceResponseBody) = b
  rw [topics]

end BrokerExam
