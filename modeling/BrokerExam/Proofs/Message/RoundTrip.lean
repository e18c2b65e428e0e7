/-
BrokerExam/Proofs/Message/RoundTrip.lean

Every message of every API reads back, and reading it records the very fields
that were written.  The one message that does not is the body of an ApiVersions
response with error 35: reading stops behind its error code, while writing does
not.

Main results: `messages_roundTrip` and `messages_recordFields`.
-/
import BrokerExam.Proofs.Message.Bodies

namespace BrokerExam

/-! ### Requests -/

namespace Request

variable {β : Type} [RequestBody β] {ok : β → Prop}

/-- The client id is short enough for its length, and the payload for that of its frame. -/
def Sendable (r : Request β) : Prop :=
  (∀ id, r.header.clientId = some id → (Utf8.encode id).length ≤ Value.maxStringBytes) ∧
    r.encoding.bytes.length < 0x80000000

/-- What is sent is a payload behind its length, and the payload reads back as `r'`. -/
def RoundTrips (r r' : Request β) : Prop :=
  ∃ payload, r.encode = .ok (BigEndian.encode 4 payload.length ++ payload) ∧
    Request.decode payload = .ok r'

/-- Reading the payload that is sent records the fields that were written, one by one. -/
def RecordsFields (r : Request β) : Prop :=
  ∃ payload, ∃ r' : Request β, ∃ s,
    r.encode = .ok (BigEndian.encode 4 payload.length ++ payload) ∧
    codec.read (ReadState.start payload ()) = .ok r' s ∧ s.fields.toList = r.encoding.fields

theorem Sendable.short {r : Request β} (h : r.Sendable) :
    (Value.string r.header.clientId).overlong? = none := by
  cases id : r.header.clientId with
  | none => rfl
  | some s => exact if_neg (Nat.not_lt.2 (h.1 s id))

/-- What a request comes to that can be sent, for bodies that can be written. -/
theorem Sendable.read (lawful : (RequestBody.codec (β := β)).LawfulOn ok) {r : Request β}
    (h : r.Sendable) (fits : ok r.body) :
    r.encode = .ok (BigEndian.encode 4 r.encoding.bytes.length ++ r.encoding.bytes) ∧
      ∃ s, codec.read (ReadState.start r.encoding.bytes ()) = .ok r.writtenBack s ∧
        s.fields.toList = r.encoding.fields := by
  have short := short_encoding lawful h.short fits
  obtain ⟨s, run, -, fields⟩ := read_whole (readsBefore_encoding lawful h.short fits
    (Nat.lt_trans h.2 (by decide)))
  refine ⟨?_, s, run, fields⟩
  rw [encode, short.render]
  rfl

theorem Sendable.roundTrips (lawful : (RequestBody.codec (β := β)).LawfulOn ok) {r : Request β}
    (h : r.Sendable) (fits : ok r.body) : r.RoundTrips r.writtenBack := by
  obtain ⟨sent, s, run, -⟩ := h.read lawful fits
  refine ⟨_, sent, ?_⟩
  rw [decode, run]

theorem Sendable.recordsFields (lawful : (RequestBody.codec (β := β)).LawfulOn ok) {r : Request β}
    (h : r.Sendable) (fits : ok r.body) : r.RecordsFields := by
  obtain ⟨sent, s, run, fields⟩ := h.read lawful fits
  exact ⟨_, _, s, sent, run, fields⟩

end Request

/-! ### Responses -/

namespace Response

variable {β : Type} [ResponseBody β] {ok : β → Prop}

/-- The payload reads back as `r'`, down to its last byte. -/
def RoundTrips (r r' : Response β) : Prop :=
  ∃ s, Response.read r.encode = .ok r' s ∧ s.cursor = ⟨r.encode.length, []⟩

/-- Reading the payload records the fields that were written, one by one. -/
def RecordsFields (r : Response β) : Prop :=
  ∃ r' : Response β, ∃ s,
    Response.read r.encode = .ok r' s ∧ s.fields.toList = r.encoding.fields

theorem read_encode (lawful : (ResponseBody.codec (β := β)).LawfulOn ok) {r : Response β}
    (fits : ok r.body) (small : r.encode.length < 0x8000000000000000) :
    ∃ s, Response.read r.encode = .ok r.writtenBack s ∧ s.cursor = ⟨r.encode.length, []⟩ ∧
      s.fields.toList = r.encoding.fields :=
  read_whole (readsBefore_encoding lawful fits small)

theorem roundTrips_writtenBack (lawful : (ResponseBody.codec (β := β)).LawfulOn ok)
    {r : Response β} (fits : ok r.body) (small : r.encode.length < 0x8000000000000000) :
    r.RoundTrips r.writtenBack := by
  obtain ⟨s, run, cursor, -⟩ := read_encode lawful fits small
  exact ⟨s, run, cursor⟩

theorem recordsFields (lawful : (ResponseBody.codec (β := β)).LawfulOn ok) {r : Response β}
    (fits : ok r.body) (small : r.encode.length < 0x8000000000000000) : r.RecordsFields := by
  obtain ⟨s, run, -, fields⟩ := read_encode lawful fits small
  exact ⟨_, s, run, fields⟩

end Response

/-! ### Bodies that end early -/

namespace ApiVersionsResponseBody

/-- All that reads back of a body that says that the version asked for is not served. -/
def unsupported : ApiVersionsResponseBody where
  errorCode := 35
  apiKeys := []
  throttleTimeMs := 0

/-- What is read for it. -/
def unsupportedEncoding : Encoding :=
  Encoding.scope "Body" (Encoding.leaf "ErrorCode" (.int16 35))

theorem readsBack_unsupported :
    ReadsBack (ResponseBody.codec (β := ApiVersionsResponseBody)).read unsupportedEncoding
      unsupported := by
  have code : ReadsBack (FieldRead.field "ErrorCode" Kind.int16 : FieldRead Int16) _ 35 :=
    ReadsBack.field "ErrorCode" (RawRead.reads_int16 35)
  have stop : ReadsBack (pure unsupported : FieldRead ApiVersionsResponseBody) [] unsupported :=
    ReadsBack.pure unsupported
  have whole := ReadsBack.scope "Body" (code.bind (f := fun errorCode =>
    (if errorCode = ErrorCode.unsupportedVersion.code then do
      Codec.writeOnly (afterErrorCode errorCode)
      return { errorCode }
    else afterErrorCode errorCode :
      Codec ApiVersionsResponseBody ApiVersionsResponseBody).read) stop)
  exact whole

/-- What is written of such a body begins with what is read of it. -/
theorem write_unsupported {b : ApiVersionsResponseBody} (h : b.errorCode = 35) :
    ∃ e, (ResponseBody.codec.write b).2 = unsupportedEncoding ++ e := by
  have code : unsupportedEncoding
      = Encoding.scope "Body" (Encoding.leaf "ErrorCode" (.int16 b.errorCode)) := by
    rw [h, unsupportedEncoding]
  rw [code]
  exact ⟨Encoding.scope "Body" _, List.map_append⟩

/-- Reading stops behind the error code and has recorded two fields by then. -/
theorem read_unsupported {r : Response ApiVersionsResponseBody} (h : r.body.errorCode = 35) :
    ∃ s, Response.read r.encode =
        .ok (⟨r.header, unsupported⟩ : Response ApiVersionsResponseBody) s ∧
      s.fields.toList = r.encoding.fields.take 2 := by
  obtain ⟨e, written⟩ := write_unsupported h
  let root := Response.root ApiVersionsResponseBody
  have split : r.encoding = Encoding.scope root (r.headerEncoding ++ unsupportedEncoding) ++
      Encoding.scope root e := by
    rw [Response.encoding_eq, written, ← List.append_assoc]
    exact List.map_append
  -- the correlation id and the error code
  have two : (Encoding.scope root (r.headerEncoding ++ unsupportedEncoding)).length = 2 := rfl
  have early : ResponseBody.endsEarly unsupported = true := rfl
  obtain ⟨s, run, -, fields⟩ := read_front (Response.readsBefore_parts
    (readsBack_unsupported (Encoding.scope root e).bytes)
    (Response.readsBefore_ending_early _ r.header early))
  refine ⟨s, ?_, ?_⟩
  · rw [← run, ← Encoding.bytes_append, ← split]
    rfl
  · rw [fields, split, ← two, Encoding.take_fields_append]

end ApiVersionsResponseBody

/-! #### Samples with batches that are not in normal form -/

def sampleProduceRequest : Request ProduceRequestBody where
  header := { apiKey := 0, apiVersion := 11, correlationId := 7, clientId := some "exam" }
  body := {
    transactionalId := none, acks := -1, timeoutMs := 100
    topics := [{ name := "t", partitions := [{ id := 0, recordBatches := [staleBatch] }] }] }

def sampleFetchResponse : Response FetchResponseBody where
  header := { correlationId := 7 }
  body := { topics := [{ partitions := [{ id := 1, recordBatches := [staleBatch, {}] }] }] }

def sampleVersionsResponse (errorCode : Int16) : Response ApiVersionsResponseBody where
  header := { correlationId := 7 }
  body := { errorCode, apiKeys := [⟨18, 0, 4⟩] }

theorem sendable_sampleProduceRequest : sampleProduceRequest.Sendable := by
  have length : sampleProduceRequest.encoding.bytes.length = 117 := by decide +kernel
  refine ⟨fun id h => ?_, ?_⟩
  · obtain rfl := Option.some.inj h
    decide +kernel
  · rw [length]
    decide

theorem fits_sampleFetchResponse :
    sampleFetchResponse.encode.length < 0x8000000000000000 ∧ sampleFetchResponse.body.Fits := by
  have length : sampleFetchResponse.encode.length = 217 := by decide +kernel
  have fits : ∀ b ∈ [staleBatch, {}], b.Fits := by decide +kernel
  refine ⟨?_, fun t ht p hp => ?_⟩
  · rw [length]
    decide
  · obtain rfl := List.mem_singleton.1 ht
    obtain rfl := List.mem_singleton.1 hp
    exact fits

theorem length_sampleVersionsResponse :
    (sampleVersionsResponse 0).encode.length < 0x8000000000000000 := by
  have length : (sampleVersionsResponse 0).encode.length = 19 := by decide +kernel
  rw [length]
  decide

/-! ### All messages -/

/-- **Every message reads back.**  A request that can be sent is sent as a payload behind its
length, which reads back as the request with its record batches in normal form.  So does the payload
of a response, down to its last byte, if its batches fit their lengths; only an ApiVersions body
with error 35 loses what follows the error code. -/
theorem messages_roundTrip :
    (∀ r : Request ApiVersionsRequestBody, r.Sendable → r.RoundTrips r) ∧
    (∀ r : Request DescribeTopicPartitionsRequestBody, r.Sendable → r.RoundTrips r) ∧
    (∀ r : Request FetchRequestBody, r.Sendable → r.RoundTrips r) ∧
    (∀ r : Request ProduceRequestBody, r.Sendable →
      r.RoundTrips { r with body := r.body.normalized }) ∧
    (∀ r : Response ApiVersionsResponseBody, r.encode.length < 0x8000000000000000 →
      r.body.errorCode ≠ 35 → r.RoundTrips r) ∧
    (∀ r : Response ApiVersionsResponseBody, r.body.errorCode = 35 →
      ∃ s, Response.read r.encode =
        .ok { r with body := ApiVersionsResponseBody.unsupported } s) ∧
    (∀ r : Response DescribeTopicPartitionsResponseBody, r.encode.length < 0x8000000000000000 →
      r.RoundTrips r) ∧
    (∀ r : Response FetchResponseBody, r.encode.length < 0x8000000000000000 → r.body.Fits →
      r.RoundTrips { r with body := r.body.normalized }) ∧
    (∀ r : Response ProduceResponseBody, r.encode.length < 0x8000000000000000 →
      r.RoundTrips r) := by
  refine ⟨?_, ?_, ?_, ?_, ?_, ?_, ?_, ?_, ?_⟩
  · intro r h
    exact h.roundTrips Codec.Lawful.on_all trivial
  · intro r h
    have back := h.roundTrips Codec.Lawful.on_all trivial
    rwa [Request.writtenBack, DescribeTopicPartitionsRequestBody.codec_write_fst] at back
  · intro r h
    have back := h.roundTrips Codec.Lawful.on_all trivial
    rwa [Request.writtenBack, FetchRequestBody.codec_write_fst] at back
  · intro r h
    have fits : r.body.Fits :=
      ProduceRequestBody.fits_of_length (Nat.lt_of_le_of_lt r.length_body_le h.2)
    have back := h.roundTrips ProduceRequestBody.codec_lawfulOn fits
    rwa [Request.writtenBack, ProduceRequestBody.codec_write_fst] at back
  · intro r small served
    have back := r.roundTrips_writtenBack ApiVersionsResponseBody.codec_lawfulOn served small
    rwa [Response.writtenBack, ApiVersionsResponseBody.codec_write_fst served] at back
  · intro r unsupported
    obtain ⟨s, run, -⟩ := ApiVersionsResponseBody.read_unsupported unsupported
    exact ⟨s, run⟩
  · intro r small
    have back := Response.roundTrips_writtenBack Codec.Lawful.on_all trivial small
    rwa [Response.writtenBack, DescribeTopicPartitionsResponseBody.codec_write_fst] at back
  · intro r small fits
    have back := Response.roundTrips_writtenBack FetchResponseBody.codec_lawfulOn fits small
    rwa [Response.writtenBack, FetchResponseBody.codec_write_fst] at back
  · intro r small
    have back := Response.roundTrips_writtenBack Codec.Lawful.on_all trivial small
    rwa [Response.writtenBack, ProduceResponseBody.codec_write_fst] at back

/-- The conditions of `messages_roundTrip` hold of messages with batches not in normal form. -/
theorem messages_roundTrip_samples :
    sampleProduceRequest.RoundTrips
      { sampleProduceRequest with body := sampleProduceRequest.body.normalized } ∧
    sampleFetchResponse.RoundTrips
      { sampleFetchResponse with body := sampleFetchResponse.body.normalized } ∧
    (sampleVersionsResponse 0).RoundTrips (sampleVersionsResponse 0) ∧
    ∃ s, Response.read (sampleVersionsResponse 35).encode =
      .ok { sampleVersionsResponse 35 with body := ApiVersionsResponseBody.unsupported } s := by
  obtain ⟨-, -, -, produce, versions, unsupported, -, fetch, -⟩ := messages_roundTrip
  exact ⟨produce _ sendable_sampleProduceRequest,
    fetch _ fits_sampleFetchResponse.1 fits_sampleFetchResponse.2,
    versions _ length_sampleVersionsResponse (by decide), unsupported _ rfl⟩

/-- **Reading a message records the fields that were written**, in the same order, with the same
paths, values and offsets, whether or not its record batches are in normal form.  Of an ApiVersions
body with error 35 it records exactly the first two. -/
theorem messages_recordFields :
    (∀ r : Request ApiVersionsRequestBody, r.Sendable → r.RecordsFields) ∧
    (∀ r : Request DescribeTopicPartitionsRequestBody, r.Sendable → r.RecordsFields) ∧
    (∀ r : Request FetchRequestBody, r.Sendable → r.RecordsFields) ∧
    (∀ r : Request ProduceRequestBody, r.Sendable → r.RecordsFields) ∧
    (∀ r : Response ApiVersionsResponseBody, r.encode.length < 0x8000000000000000 →
      r.body.errorCode ≠ 35 → r.RecordsFields) ∧
    (∀ r : Response ApiVersionsResponseBody, r.body.errorCode = 35 →
      ∃ r' : Response ApiVersionsResponseBody, ∃ s,
        Response.read r.encode = .ok r' s ∧ s.fields.toList = r.encoding.fields.take 2) ∧
    (∀ r : Response DescribeTopicPartitionsResponseBody, r.encode.length < 0x8000000000000000 →
      r.RecordsFields) ∧
    (∀ r : Response FetchResponseBody, r.encode.length < 0x8000000000000000 → r.body.Fits →
      r.RecordsFields) ∧
    (∀ r : Response ProduceResponseBody, r.encode.length < 0x8000000000000000 →
      r.RecordsFields) := by
  refine ⟨?_, ?_, ?_, ?_, ?_, ?_, ?_, ?_, ?_⟩
  · intro r h
    exact h.recordsFields Codec.Lawful.on_all trivial
  · intro r h
    exact h.recordsFields Codec.Lawful.on_all trivial
  · intro r h
    exact h.recordsFields Codec.Lawful.on_all trivial
  · intro r h
    exact h.recordsFields ProduceRequestBody.codec_lawfulOn
      (ProduceRequestBody.fits_of_length (Nat.lt_of_le_of_lt r.length_body_le h.2))
  · intro r small served
    exact r.recordsFields ApiVersionsResponseBody.codec_lawfulOn served small
  · intro r unsupported
    obtain ⟨s, run, fields⟩ := ApiVersionsResponseBody.read_unsupported unsupported
    exact ⟨_, s, run, fields⟩
  · intro r small
    exact Response.recordsFields Codec.Lawful.on_all trivial small
  · intro r small fits
    exact Response.recordsFields FetchResponseBody.codec_lawfulOn fits small
  · intro r small
    exact Response.recordsFields Codec.Lawful.on_all trivial small

/-- The conditions of `messages_recordFields` hold of the same messages. -/
theorem messages_recordFields_samples :
    sampleProduceRequest.RecordsFields ∧ sampleFetchResponse.RecordsFields ∧
    (sampleVersionsResponse 0).RecordsFields ∧
    ∃ r' : Response ApiVersionsResponseBody, ∃ s,
      Response.read (sampleVersionsResponse 35).encode = .ok r' s ∧
      s.fields.toList = (sampleVersionsResponse 35).encoding.fields.take 2 := by
  obtain ⟨-, -, -, produce, versions, unsupported, -, fetch, -⟩ := messages_recordFields
  exact ⟨produce _ sendable_sampleProduceRequest,
    fetch _ fits_sampleFetchResponse.1 fits_sampleFetchResponse.2,
    versions _ length_sampleVersionsResponse (by decide), unsupported _ rfl⟩

end BrokerExam
