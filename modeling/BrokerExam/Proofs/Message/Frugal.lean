/-
BrokerExam/Proofs/Message/Frugal.lean

Messages are frugal: whatever lengths the bytes of a payload declare, to read it
records two fields for each byte at most, and what it returns has no more elements
in all its arrays together than the payload has bytes.

Main result: `decoders_frugal`, for the requests and responses of all the APIs, and
for logs.
-/
import BrokerExam.Proofs.Batch.Confinement
import BrokerExam.Proofs.Wire.Frugal
import BrokerExam.Message.ApiVersions
import BrokerExam.Message.DescribeTopicPartitions
import BrokerExam.Message.Fetch
import BrokerExam.Message.Produce

namespace BrokerExam

open Codec

/-! ### ApiVersions -/

section ApiVersions

instance : Elements ApiVersionsRequestBody := ⟨fun _ => 0⟩
instance : Elements ApiKeyVersions := ⟨fun _ => 0⟩
instance : Elements ApiVersionsResponseBody := ⟨fun body => Elements.count body.apiKeys⟩

instance : (RequestBody.codec : Codec ApiVersionsRequestBody _).Frugal Elements.count :=
  ⟨.scope (frugal_bind fun _ => frugal_bind fun _ => frugal_bind fun _ =>
    frugal_pure (by exact Nat.zero_le _)) "Body"⟩

instance : ApiKeyVersions.codec.Frugal fun v => Elements.count v + 1 :=
  ⟨frugal_bind fun _ => frugal_bind fun _ => frugal_bind fun _ => frugal_bind fun _ =>
    frugal_pure (Nat.le_add_left 1 3)⟩

theorem ApiVersionsResponseBody.frugal_afterErrorCode (errorCode : Int16) (credit : Nat) :
    FieldRead.Frugal credit Elements.count (afterErrorCode errorCode).read := by
  refine frugal_bind fun apiKeys => frugal_bind fun _ => frugal_bind fun _ => frugal_pure ?_
  show Elements.count apiKeys ≤ _
  omega

/-- Behind the error code that ends it early, the body has no element. -/
instance : (ResponseBody.codec : Codec ApiVersionsResponseBody _).Frugal Elements.count := by
  refine ⟨.scope (frugal_bind (c := Codec.on _ _) fun errorCode => ?_) "Body"⟩
  show FieldRead.Frugal _ _ (Codec.read (if errorCode = _ then _ else _))
  split
  · exact .pure (Nat.zero_le _)
  · exact ApiVersionsResponseBody.frugal_afterErrorCode errorCode _

end ApiVersions

/-! ### DescribeTopicPartitions -/

section DescribeTopicPartitions

instance : Elements String := ⟨fun _ => 0⟩

instance : Elements DescribeTopicPartitionsRequestBody :=
  ⟨fun body => Elements.count body.topicNames⟩

instance : Elements DescribedPartition :=
  ⟨fun p => Elements.count p.replicaNodes + Elements.count p.isrNodes +
    Elements.count p.eligibleLeaderReplicas + Elements.count p.lastKnownElr +
    Elements.count p.offlineReplicas⟩

instance : Elements DescribedTopic := ⟨fun t => Elements.count t.partitions⟩

instance : Elements DescribeTopicPartitionsResponseBody :=
  ⟨fun body => Elements.count body.topics⟩

instance : PageCursor.fields.Frugal fun _ => 0 :=
  ⟨frugal_bind fun _ => frugal_bind fun _ => frugal_bind fun _ => frugal_pure (Nat.zero_le _)⟩

instance : PageCursor.codec.Frugal fun _ => 0 := by
  refine ⟨.scope ((FieldRead.Frugal.plainAnchored .int8 "IsCursorPresent").bind fun p => ?_)
    "Cursor"⟩
  show FieldRead.Frugal _ _ (if p.1 = -1 then _ else if p.1 = 1 then _ else _)
  split
  · exact .pure (Nat.zero_le _)
  · split
    · exact .map some (.lend (Frugal.frugal (c := PageCursor.fields)) _)
    · exact .throw _

instance : describedName.Frugal fun name => Elements.count name + 1 :=
  ⟨frugal_bind fun _ => frugal_bind fun _ => frugal_pure (Nat.le_add_left 1 1)⟩

instance : (RequestBody.codec : Codec DescribeTopicPartitionsRequestBody _).Frugal
    Elements.count := by
  refine ⟨.scope (frugal_bind fun topicNames => frugal_bind fun _ => frugal_bind fun _ =>
    frugal_bind fun _ => frugal_pure ?_) "Body"⟩
  show Elements.count topicNames ≤ _
  omega

instance : DescribedPartition.codec.Frugal fun p => Elements.count p + 1 := by
  refine ⟨frugal_bind fun _ => frugal_bind fun _ => frugal_bind fun _ => frugal_bind fun _ =>
    frugal_bind fun replicas => frugal_bind fun isr => frugal_bind fun eligible =>
    frugal_bind fun lastKnown => frugal_bind fun offline => frugal_bind fun _ => frugal_pure ?_⟩
  show Elements.count replicas + Elements.count isr + Elements.count eligible +
    Elements.count lastKnown + Elements.count offline + 1 ≤ _
  omega

instance : DescribedTopic.codec.Frugal fun t => Elements.count t + 1 := by
  refine ⟨frugal_bind fun _ => frugal_bind fun _ => frugal_bind fun _ => frugal_bind fun _ =>
    frugal_bind fun partitions => frugal_bind fun _ => frugal_bind fun _ => frugal_pure ?_⟩
  show Elements.count partitions + 1 ≤ _
  omega

instance : (ResponseBody.codec : Codec DescribeTopicPartitionsResponseBody _).Frugal
    Elements.count := by
  refine ⟨.scope (frugal_bind fun _ => frugal_bind fun topics => frugal_bind fun _ =>
    frugal_bind fun _ => frugal_pure ?_) "Body"⟩
  show Elements.count topics ≤ _
  omega

end DescribeTopicPartitions

/-! ### Fetch -/

section Fetch

instance : Elements FetchRequestPartition := ⟨fun _ => 0⟩
instance : Elements FetchRequestTopic := ⟨fun t => Elements.count t.partitions⟩
instance : Elements ForgottenTopic := ⟨fun t => Elements.count t.partitionIds⟩
instance : Elements FetchRequestBody :=
  ⟨fun body => Elements.count body.topics + Elements.count body.forgottenTopics⟩

instance : Elements AbortedTransaction := ⟨fun _ => 0⟩
instance : Elements FetchedPartition :=
  ⟨fun p => Elements.count p.abortedTransactions + Elements.count p.recordBatches⟩
instance : Elements FetchedTopic := ⟨fun t => Elements.count t.partitions⟩
instance : Elements FetchResponseBody := ⟨fun body => Elements.count body.topics⟩

instance : FetchRequestPartition.codec.Frugal fun p => Elements.count p + 1 :=
  ⟨frugal_bind fun _ => frugal_bind fun _ => frugal_bind fun _ => frugal_bind fun _ =>
    frugal_bind fun _ => frugal_bind fun _ => frugal_bind fun _ =>
    frugal_pure (Nat.le_add_left 1 6)⟩

instance : FetchRequestTopic.codec.Frugal fun t => Elements.count t + 1 := by
  refine ⟨frugal_bind fun _ => frugal_bind fun partitions => frugal_bind fun _ => frugal_pure ?_⟩
  show Elements.count partitions + 1 ≤ _
  omega

instance : ForgottenTopic.codec.Frugal fun t => Elements.count t + 1 := by
  refine ⟨frugal_bind fun _ => frugal_bind fun ids => frugal_bind fun _ => frugal_pure ?_⟩
  show Elements.count ids + 1 ≤ _
  omega

instance : (RequestBody.codec : Codec FetchRequestBody _).Frugal Elements.count := by
  refine ⟨.scope (frugal_bind fun _ => frugal_bind fun _ => frugal_bind fun _ =>
    frugal_bind fun _ => frugal_bind fun _ => frugal_bind fun _ => frugal_bind fun topics =>
    frugal_bind fun forgotten => frugal_bind fun _ => frugal_bind fun _ => frugal_pure ?_) "Body"⟩
  show Elements.count topics + Elements.count forgotten ≤ _
  omega

instance : AbortedTransaction.codec.Frugal fun t => Elements.count t + 1 :=
  ⟨frugal_bind fun _ => frugal_bind fun _ => frugal_bind fun _ =>
    frugal_pure (Nat.le_add_left 1 2)⟩

instance : FetchedPartition.codec.Frugal fun p => Elements.count p + 1 := by
  refine ⟨frugal_bind fun _ => frugal_bind fun _ => frugal_bind fun _ => frugal_bind fun _ =>
    frugal_bind fun _ => frugal_bind fun aborted => frugal_bind fun _ =>
    frugal_bind fun batches => frugal_bind fun _ => frugal_pure ?_⟩
  show Elements.count aborted + Elements.count batches + 1 ≤ _
  omega

instance : FetchedTopic.codec.Frugal fun t => Elements.count t + 1 := by
  refine ⟨frugal_bind fun _ => frugal_bind fun partitions => frugal_bind fun _ => frugal_pure ?_⟩
  show Elements.count partitions + 1 ≤ _
  omega

instance : (ResponseBody.codec : Codec FetchResponseBody _).Frugal Elements.count := by
  refine ⟨.scope (frugal_bind fun _ => frugal_bind fun _ => frugal_bind fun _ =>
    frugal_bind fun topics => frugal_bind fun _ => frugal_pure ?_) "Body"⟩
  show Elements.count topics ≤ _
  omega

end Fetch

/-! ### Produce -/

section Produce

instance : Elements ProduceRequestPartition := ⟨fun p => Elements.count p.recordBatches⟩
instance : Elements ProduceRequestTopic := ⟨fun t => Elements.count t.partitions⟩
instance : Elements ProduceRequestBody := ⟨fun body => Elements.count body.topics⟩

instance : Elements RecordError := ⟨fun _ => 0⟩
instance : Elements ProducedPartition := ⟨fun p => Elements.count p.recordErrors⟩
instance : Elements ProducedTopic := ⟨fun t => Elements.count t.partitions⟩
instance : Elements ProduceResponseBody := ⟨fun body => Elements.count body.topics⟩

instance : ProduceRequestPartition.codec.Frugal fun p => Elements.count p + 1 := by
  refine ⟨frugal_bind fun _ => frugal_bind fun batches => frugal_bind fun _ => frugal_pure ?_⟩
  show Elements.count batches + 1 ≤ _
  omega

instance : ProduceRequestTopic.codec.Frugal fun t => Elements.count t + 1 := by
  refine ⟨frugal_bind fun _ => frugal_bind fun partitions => frugal_bind fun _ => frugal_pure ?_⟩
  show Elements.count partitions + 1 ≤ _
  omega

instance : (RequestBody.codec : Codec ProduceRequestBody _).Frugal Elements.count := by
  refine ⟨.scope (frugal_bind fun _ => frugal_bind fun _ => frugal_bind fun _ =>
    frugal_bind fun topics => frugal_bind fun _ => frugal_pure ?_) "Body"⟩
  show Elements.count topics ≤ _
  omega

instance : RecordError.codec.Frugal fun e => Elements.count e + 1 :=
  ⟨frugal_bind fun _ => frugal_bind fun _ => frugal_bind fun _ =>
    frugal_pure (Nat.le_add_left 1 2)⟩

instance : ProducedPartition.codec.Frugal fun p => Elements.count p + 1 := by
  refine ⟨frugal_bind fun _ => frugal_bind fun _ => frugal_bind fun _ => frugal_bind fun _ =>
    frugal_bind fun _ => frugal_bind fun errors => frugal_bind fun _ => frugal_bind fun _ =>
    frugal_pure ?_⟩
  show Elements.count errors + 1 ≤ _
  omega

instance : ProducedTopic.codec.Frugal fun t => Elements.count t + 1 := by
  refine ⟨frugal_bind fun _ => frugal_bind fun partitions => frugal_bind fun _ => frugal_pure ?_⟩
  show Elements.count partitions + 1 ≤ _
  omega

instance : (ResponseBody.codec : Codec ProduceResponseBody _).Frugal Elements.count := by
  refine ⟨.scope (frugal_bind fun topics => frugal_bind fun _ => frugal_bind fun _ =>
    frugal_pure ?_) "Body"⟩
  show Elements.count topics ≤ _
  omega

end Produce

/-! ### Messages -/

section Messages

variable {α β : Type} [Elements β]

instance : Elements (Request β) := ⟨fun r => Elements.count r.body⟩
instance : Elements (Response β) := ⟨fun r => Elements.count r.body⟩

instance : RequestHeader.codec.Frugal fun _ => 0 :=
  ⟨.scope (frugal_bind fun _ => frugal_bind fun _ => frugal_bind fun _ => frugal_bind fun _ =>
    frugal_bind fun _ => frugal_pure (by exact Nat.zero_le _)) "Header"⟩

instance (flexible : Bool) : (ResponseHeader.codec flexible).Frugal fun _ => 0 := by
  cases flexible with
  | false => exact ⟨.scope (frugal_bind fun _ => frugal_pure (by exact Nat.zero_le _)) "Header"⟩
  | true =>
    exact ⟨.scope (frugal_bind fun _ => frugal_bind fun _ =>
      frugal_pure (by exact Nat.zero_le _)) "Header"⟩

instance (root : String) : (Codec.finished root : Codec α Unit).Frugal fun _ => 0 := by
  refine ⟨FieldRead.Frugal.remaining.bind fun left => ?_⟩
  split
  · exact .pure (Nat.zero_le _)
  · exact (FieldRead.Frugal.errorOverRemaining _).bind fun e => .throw e

instance [RequestBody β] [(RequestBody.codec : Codec β β).Frugal Elements.count] :
    (Request.codec : Codec (Request β) _).Frugal Elements.count := by
  refine ⟨.scope (frugal_bind fun _ => frugal_bind fun body => frugal_bind fun _ =>
    frugal_pure ?_) (Request.root β)⟩
  show Elements.count body ≤ _
  omega

instance [ResponseBody β] [(ResponseBody.codec : Codec β β).Frugal Elements.count] :
    (Response.codec : Codec (Response β) _).Frugal Elements.count := by
  refine ⟨.scope (frugal_bind fun _ => frugal_bind fun body => ?_) (Response.root β)⟩
  have paid : Elements.count body ≤ 0 + 0 + Elements.count body := Nat.le_add_left _ _
  show FieldRead.Frugal _ _ (Codec.read (if ResponseBody.endsEarly body then _ else _))
  split
  · exact .pure paid
  · exact frugal_bind fun _ => frugal_pure (Nat.le_trans paid (Nat.le_add_right _ _))

end Messages

/-! ### Payloads -/

/-- However reading the payload ends, two fields at most are recorded for each byte, and what is
returned has no more elements than the payload has bytes. -/
structure ReadsFrugally {α : Type} [Elements α] (r : FieldRead α) (payload : Bytes) : Prop where
  fields : (finalState (r (ReadState.start payload ()))).fields.size ≤ 2 * payload.length
  elements : ∀ a s, r (ReadState.start payload ()) = .ok a s → Elements.count a ≤ payload.length

theorem FieldRead.Frugal.readsFrugally {α : Type} [Elements α] {r : FieldRead α}
    (h : Frugal 0 Elements.count r) (payload : Bytes) : ReadsFrugally r payload := by
  have spends := h.spends (ReadState.start payload ())
  have last : (finalState (r (ReadState.start payload ()))).cursor.offset ≤ payload.length := by
    have stop := spends.stop
    simp only [Cursor.stop, ReadState.start, Cursor.start, Nat.zero_add] at stop ⊢
    omega
  refine ⟨?_, fun a s run => ?_⟩
  · have fields := spends.fields
    simp only [ReadState.start, Cursor.start, Array.size_empty] at fields last ⊢
    omega
  · have paid := h.pays _ a s run
    rw [run] at last
    simp only [ReadState.start, Cursor.start, finalState, Nat.zero_add] at paid last
    exact Nat.le_trans paid last

/-- **Declared lengths do not go beyond the bytes.**  To read a payload as a request or a response
of any of the APIs, or as a log, comes to an end with no more than two fields for each byte of it
and one element, whatever lengths, counts and sizes the bytes declare.  A log that is read was read
to its last byte. -/
theorem decoders_frugal (payload : Bytes) :
    ReadsFrugally (Request.codec (β := ApiVersionsRequestBody)).read payload ∧
    ReadsFrugally (Request.codec (β := DescribeTopicPartitionsRequestBody)).read payload ∧
    ReadsFrugally (Request.codec (β := FetchRequestBody)).read payload ∧
    ReadsFrugally (Request.codec (β := ProduceRequestBody)).read payload ∧
    ReadsFrugally (Response.codec (β := ApiVersionsResponseBody)).read payload ∧
    ReadsFrugally (Response.codec (β := DescribeTopicPartitionsResponseBody)).read payload ∧
    ReadsFrugally (Response.codec (β := FetchResponseBody)).read payload ∧
    ReadsFrugally (Response.codec (β := ProduceResponseBody)).read payload ∧
    ReadsFrugally readLog payload ∧
    ∀ batches s, readLog (ReadState.start payload ()) = .ok batches s → s.cursor.ahead = [] := by
  have message {α : Type} [Elements α] (c : Codec α α) [h : c.Frugal Elements.count] :
      ReadsFrugally c.read payload := h.frugal.readsFrugally payload
  refine ⟨message _, message _, message _, message _, message _, message _, message _, message _,
    frugal_readLog.readsFrugally payload, fun batches s run => ?_⟩
  obtain ⟨s₁, body, rfl⟩ := FieldRead.ok_of_scope run
  show s₁.cursor.ahead = []
  exact ahead_of_all body

end BrokerExam
