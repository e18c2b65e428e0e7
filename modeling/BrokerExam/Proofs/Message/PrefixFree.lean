/-
BrokerExam/Proofs/Message/PrefixFree.lean

Messages that are cut short, or go on.  A message that was read takes all of its
payload, and reads the same bytes whatever follows them; so bytes in excess are
met at its very end.  Cut short, it lacks what its header or its body would read
next.

Main result: `payloads_prefixFree`, for the messages of all APIs.
-/
import BrokerExam.Proofs.Message.RoundTrip
import BrokerExam.Proofs.Message.Tiling
import BrokerExam.Proofs.Wire.Delimited

namespace BrokerExam

/-! ### Bodies -/

instance : RequestHeader.codec.Delimited := by
  unfold RequestHeader.codec
  infer_instance

instance (flexible : Bool) : (ResponseHeader.codec flexible).Delimited := by
  cases flexible with
  | false =>
    rw [ResponseHeader.codec_false]
    infer_instance
  | true =>
    rw [ResponseHeader.codec_true]
    infer_instance

instance : ApiKeyVersions.codec.Delimited := by
  unfold ApiKeyVersions.codec
  infer_instance

instance (errorCode : Int16) : (ApiVersionsResponseBody.afterErrorCode errorCode).Delimited := by
  unfold ApiVersionsResponseBody.afterErrorCode
  infer_instance

instance : PageCursor.fields.Delimited := by
  unfold PageCursor.fields
  infer_instance

theorem PageCursor.delimited_behindMarker (marker : Int8) (anchor : Anchor) :
    (behindMarker marker anchor).Delimited := by
  unfold behindMarker
  split
  · exact FieldRead.Delimited.pure none
  · split
    · have fields : PageCursor.fields.read.Delimited := Codec.Delimited.delimited
      exact fields.map some
    · exact FieldRead.Delimited.throw _

instance : PageCursor.codec.Delimited where
  delimited := by
    rw [PageCursor.codec_read_eq]
    apply FieldRead.Delimited.scope "Cursor"
    apply FieldRead.Delimited.anchored_bind (.plain .int8) "IsCursorPresent"
    · exact PageCursor.localFamily_behindMarker
    · intro marker anchor used t cursor reads
      exact ((PageCursor.delimited_behindMarker marker anchor).misses reads).behind anchor

instance : describedName.Delimited := by
  unfold describedName
  infer_instance

instance : DescribedPartition.codec.Delimited := by
  unfold DescribedPartition.codec
  infer_instance

instance : DescribedTopic.codec.Delimited := by
  unfold DescribedTopic.codec
  infer_instance

instance : FetchRequestPartition.codec.Delimited := by
  unfold FetchRequestPartition.codec
  infer_instance

instance : FetchRequestTopic.codec.Delimited := by
  unfold FetchRequestTopic.codec
  infer_instance

instance : ForgottenTopic.codec.Delimited := by
  unfold ForgottenTopic.codec
  infer_instance

instance : AbortedTransaction.codec.Delimited := by
  unfold AbortedTransaction.codec
  infer_instance

instance : FetchedPartition.codec.Delimited := by
  unfold FetchedPartition.codec
  infer_instance

instance : FetchedTopic.codec.Delimited := by
  unfold FetchedTopic.codec
  infer_instance

instance : ProduceRequestPartition.codec.Delimited := by
  unfold ProduceRequestPartition.codec
  infer_instance

instance : ProduceRequestTopic.codec.Delimited := by
  unfold ProduceRequestTopic.codec
  infer_instance

instance : RecordError.codec.Delimited := by
  unfold RecordError.codec
  infer_instance

instance : ProducedPartition.codec.Delimited := by
  unfold ProducedPartition.codec
  infer_instance

instance : ProducedTopic.codec.Delimited := by
  unfold ProducedTopic.codec
  infer_instance

instance : (RequestBody.codec (β := ApiVersionsRequestBody)).Delimited :=
  inferInstanceAs (Codec.scope "Body" _).Delimited

instance : (RequestBody.codec (β := DescribeTopicPartitionsRequestBody)).Delimited :=
  inferInstanceAs (Codec.scope "Body" _).Delimited

instance : (RequestBody.codec (β := FetchRequestBody)).Delimited :=
  inferInstanceAs (Codec.scope "Body" _).Delimited

instance : (RequestBody.codec (β := ProduceRequestBody)).Delimited :=
  inferInstanceAs (Codec.scope "Body" _).Delimited

instance : (ResponseBody.codec (β := ApiVersionsResponseBody)).Delimited :=
  inferInstanceAs (Codec.scope "Body" _).Delimited

instance : (ResponseBody.codec (β := DescribeTopicPartitionsResponseBody)).Delimited :=
  inferInstanceAs (Codec.scope "Body" _).Delimited

instance : (ResponseBody.codec (β := FetchResponseBody)).Delimited :=
  inferInstanceAs (Codec.scope "Body" _).Delimited

instance : (ResponseBody.codec (β := ProduceResponseBody)).Delimited :=
  inferInstanceAs (Codec.scope "Body" _).Delimited

/-! ### Whole payloads -/

/-- The payload is told from what it becomes when bytes are missing at its end, or are in excess
there: `rejects p e` says that reading `p` fails with `e`. -/
structure Delimits (root : String) (rejects : Bytes → DecodeError → Prop) (payload : Bytes) :
    Prop where
  cut : ∀ front, front <+: payload → front ≠ payload →
    ∃ e, rejects front e ∧ e.ShortWithin 0 front.length
  excess : ∀ more, more ≠ [] → rejects (payload ++ more)
    ⟨⟨[root]⟩, payload.length, payload.length + more.length,
      .invalidLength (.trailingMessage more.length root)⟩

theorem Delimits.mono {root : String} {rejects rejects' : Bytes → DecodeError → Prop}
    {payload : Bytes} (h : Delimits root rejects payload)
    (weaker : ∀ p e, rejects p e → rejects' p e) : Delimits root rejects' payload where
  cut := by
    intro front start some
    obtain ⟨e, rejected, short⟩ := h.cut front start some
    exact ⟨e, weaker front e rejected, short⟩
  excess := fun more some => weaker _ _ (h.excess more some)

/-- A message delimits its payload if its parts do, and if nothing may be left behind them. -/
theorem delimits_of_reads {α β : Type} {parts : FieldRead α} {payload : Bytes} {t : Trace} {a : α}
    (root : String) (finish : α → FieldRead β) (delimited : parts.Delimited)
    (reads : Reads parts payload t a)
    (complains : ∀ s : ReadState Unit, s.cursor.ahead ≠ [] → finish a s =
      .error ⟨s.path, s.cursor.offset, s.cursor.stop,
        .invalidLength (.trailingMessage s.cursor.ahead.length root)⟩ s) :
    Delimits root (fun p e => ∃ s, FieldRead.scope root (parts >>= finish)
      (ReadState.start p ()) = .error e s) payload where
  cut := by
    intro front start some
    have misses := ((delimited.misses reads).bind_left (f := finish)).scope root
    obtain ⟨e, s, run, short⟩ := misses (ReadState.start front ()) ⟨start, some⟩
    have all : (ReadState.start front ()).cursor.stop = front.length := Nat.zero_add front.length
    exact ⟨e, ⟨s, run⟩, all ▸ short⟩
  excess := by
    intro more some
    let entry : ReadState Unit := { ReadState.start (payload ++ more) () with path := ⟨[root]⟩ }
    -- the parts take the payload, and what is in excess is all that is left
    have first : parts entry = .ok a (entry.past t more) := (reads more).run entry rfl
    have offset : (entry.past t more).cursor.offset = payload.length := by
      rw [ReadState.past_offset, (reads more).width]
      exact Nat.zero_add payload.length
    have stopped := complains (entry.past t more) some
    rw [← bind_of_ok (f := finish) first, Cursor.stop, offset] at stopped
    exact ⟨_, FieldRead.scope_of_error stopped⟩

namespace Request

variable {β : Type} [RequestBody β]

variable (β) in
/-- Reading the payload fails with the error. -/
def Rejects (payload : Bytes) (e : DecodeError) : Prop :=
  (decode payload : Except DecodeError (Request β)) = .error e

/-- Header and body. -/
def parts : FieldRead (RequestHeader × β) := do
  let header ← RequestHeader.codec.read
  let body ← RequestBody.codec.read
  return (header, body)

/-- What stands behind them. -/
def finish (p : RequestHeader × β) : FieldRead (Request β) := do
  (Codec.finished (root β) : Codec (Request β) Unit).read
  return { header := p.1, body := p.2 }

theorem codec_read_eq : (codec : Codec (Request β) (Request β)).read =
    FieldRead.scope (root β) (parts >>= finish) := by
  simp only [parts, bind_assoc, pure_bind]
  rfl

variable [h : (RequestBody.codec (β := β)).Delimited]

theorem delimited_parts : (parts : FieldRead (RequestHeader × β)).Delimited :=
  FieldRead.Delimited.bind Codec.Delimited.delimited fun header =>
    h.delimited.bind fun body => FieldRead.Delimited.pure (header, body)

/-- A request that was read took all of its payload. -/
theorem reads_of_decode {payload : Bytes} {r : Request β} (decoded : decode payload = .ok r) :
    ∃ t, Reads parts payload t (r.header, r.body) := by
  rw [decode, codec_read_eq] at decoded
  split at decoded
  · next r' s run =>
    obtain ⟨s₁, below, -⟩ := FieldRead.ok_of_scope run
    obtain ⟨p, s₂, front, behind⟩ := ok_of_bind below
    obtain ⟨_, s₃, finished, last⟩ := ok_of_bind behind
    obtain ⟨rfl, none⟩ := ok_of_finished finished
    obtain ⟨rfl, -⟩ := EStateM.Result.ok.inj last
    obtain rfl := Except.ok.inj decoded
    exact delimited_parts.isLocal.reads_of_run front none
  · cases decoded

theorem delimits_of_decode {payload : Bytes} {r : Request β} (decoded : decode payload = .ok r) :
    Delimits (root β) (Rejects β) payload := by
  obtain ⟨t, reads⟩ := reads_of_decode decoded
  have whole := delimits_of_reads (root β) finish delimited_parts reads (by
    intro s left
    rw [finish, bind_of_error (error_finished (Request β) (root β) left)])
  apply whole.mono
  rintro front e ⟨s, run⟩
  rw [Rejects, decode, codec_read_eq, run]

end Request

namespace Response

variable {β : Type} [ResponseBody β]

variable (β) in
/-- Reading the payload fails with the error. -/
def Rejects (payload : Bytes) (e : DecodeError) : Prop :=
  ∃ s, (read payload : EStateM.Result _ _ (Response β)) = .error e s

variable [h : (ResponseBody.codec (β := β)).Delimited]

theorem delimited_parts : (parts : FieldRead (ResponseHeader × β)).Delimited :=
  FieldRead.Delimited.bind Codec.Delimited.delimited fun header =>
    h.delimited.bind fun body => FieldRead.Delimited.pure (header, body)

/-- A response that was read took all of its payload, unless its body ends early. -/
theorem reads_of_read {payload : Bytes} {r : Response β} {s : ReadState Unit}
    (run : read payload = .ok r s) (late : ResponseBody.endsEarly r.body = false) :
    ∃ t, Reads parts payload t (r.header, r.body) := by
  rw [read, codec_read_eq] at run
  obtain ⟨s₁, below, -⟩ := FieldRead.ok_of_scope run
  obtain ⟨p, s₂, front, behind⟩ := ok_of_bind below
  obtain ⟨rfl, rfl, none⟩ := ok_of_ending behind
  exact delimited_parts.isLocal.reads_of_run front (none late)

theorem delimits_of_read {payload : Bytes} {r : Response β} {s : ReadState Unit}
    (run : read payload = .ok r s) (late : ResponseBody.endsEarly r.body = false) :
    Delimits (root β) (Rejects β) payload := by
  obtain ⟨t, reads⟩ := reads_of_read run late
  have whole := delimits_of_reads (root β) (fun p => (ending p.1 p.2).read) delimited_parts reads
    (by
      intro s left
      have finished := error_finished (Response β) (root β) left
      rw [ending, if_neg (by rw [late]; decide)]
      exact bind_of_error finished)
  apply whole.mono
  rintro front e ⟨s, run⟩
  rw [← codec_read_eq] at run
  exact ⟨s, run⟩

end Response

/-! ### All messages -/

/-- **Payloads that are read are prefix-free.**  Of a payload that reads as a message, every part
from the first byte on is rejected for want of the bytes that are missing, over bytes that are
there; and if it goes on, it is rejected for exactly the bytes in excess, at the root.  The one
exception are responses to ApiVersions with the error code behind which nothing is read. -/
theorem payloads_prefixFree (payload : Bytes) :
    (∀ r : Request ApiVersionsRequestBody, Request.decode payload = .ok r →
      Delimits "ApiVersionsRequest" (Request.Rejects ApiVersionsRequestBody) payload) ∧
    (∀ r : Request DescribeTopicPartitionsRequestBody, Request.decode payload = .ok r →
      Delimits "DescribeTopicPartitionsRequest"
        (Request.Rejects DescribeTopicPartitionsRequestBody) payload) ∧
    (∀ r : Request FetchRequestBody, Request.decode payload = .ok r →
      Delimits "FetchRequest" (Request.Rejects FetchRequestBody) payload) ∧
    (∀ r : Request ProduceRequestBody, Request.decode payload = .ok r →
      Delimits "ProduceRequest" (Request.Rejects ProduceRequestBody) payload) ∧
    (∀ (r : Response ApiVersionsResponseBody) s, Response.read payload = .ok r s →
      r.body.errorCode ≠ 35 →
      Delimits "ApiVersionsResponse" (Response.Rejects ApiVersionsResponseBody) payload) ∧
    (∀ (r : Response DescribeTopicPartitionsResponseBody) s, Response.read payload = .ok r s →
      Delimits "DescribeTopicPartitionsResponse"
        (Response.Rejects DescribeTopicPartitionsResponseBody) payload) ∧
    (∀ (r : Response FetchResponseBody) s, Response.read payload = .ok r s →
      Delimits "FetchResponse" (Response.Rejects FetchResponseBody) payload) ∧
    (∀ (r : Response ProduceResponseBody) s, Response.read payload = .ok r s →
      Delimits "ProduceResponse" (Response.Rejects ProduceResponseBody) payload) := by
  refine ⟨?_, ?_, ?_, ?_, ?_, ?_, ?_, ?_⟩
  · intro r decoded
    exact Request.delimits_of_decode decoded
  · intro r decoded
    exact Request.delimits_of_decode decoded
  · intro r decoded
    exact Request.delimits_of_decode decoded
  · intro r decoded
    exact Request.delimits_of_decode decoded
  · intro r s run served
    exact Response.delimits_of_read run (decide_eq_false served)
  · intro r s run
    exact Response.delimits_of_read run rfl
  · intro r s run
    exact Response.delimits_of_read run rfl
  · intro r s run
    exact Response.delimits_of_read run rfl

/-- The conditions of `payloads_prefixFree` hold of payloads with and without record batches. -/
theorem payloads_prefixFree_samples :
    Delimits "ProduceRequest" (Request.Rejects ProduceRequestBody)
      sampleProduceRequest.encoding.bytes ∧
    Delimits "ApiVersionsResponse" (Response.Rejects ApiVersionsResponseBody)
      (sampleVersionsResponse 0).encode ∧
    Delimits "FetchResponse" (Response.Rejects FetchResponseBody) sampleFetchResponse.encode := by
  obtain ⟨-, -, -, produce, -, -, -, -⟩ := payloads_prefixFree sampleProduceRequest.encoding.bytes
  obtain ⟨-, -, -, -, versions, -, -, -⟩ := payloads_prefixFree (sampleVersionsResponse 0).encode
  obtain ⟨-, -, -, -, -, -, fetch, -⟩ := payloads_prefixFree sampleFetchResponse.encode
  obtain ⟨-, s₁, sent, -⟩ := sendable_sampleProduceRequest.read
    ProduceRequestBody.codec_lawfulOn (ProduceRequestBody.fits_of_length
      (Nat.lt_of_le_of_lt sampleProduceRequest.length_body_le sendable_sampleProduceRequest.2))
  obtain ⟨s₂, versionsRun, -⟩ := Response.read_encode ApiVersionsResponseBody.codec_lawfulOn
    (r := sampleVersionsResponse 0) (by decide) length_sampleVersionsResponse
  obtain ⟨s₃, fetchRun, -⟩ := Response.read_encode FetchResponseBody.codec_lawfulOn
    fits_sampleFetchResponse.2 fits_sampleFetchResponse.1
  refine ⟨produce sampleProduceRequest.writtenBack ?_, versions _ s₂ versionsRun (by decide),
    fetch _ s₃ fetchRun⟩
  rw [Request.decode, sent]

end BrokerExam
