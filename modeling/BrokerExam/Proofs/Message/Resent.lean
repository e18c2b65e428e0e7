/-
BrokerExam/Proofs/Message/Resent.lean

Requests that are sent again.  What a payload is read as need not fit the place it
came from: bytes that are no text are replaced by longer ones, so a client id that
was read can be too long to be written, and a batch can outgrow its length.  All
else that is read can be written, and is read back.

Main result: `decoded_resent`, for the requests of all APIs.
-/
import BrokerExam.Proofs.Batch.Readable
import BrokerExam.Proofs.Batch.Replaced
import BrokerExam.Proofs.Message.PrefixFree
import BrokerExam.Proofs.Wire.Spelling

namespace BrokerExam

/-! ### Bodies with batches -/

namespace ProduceRequestPartition

/-- No batch has more records than can be counted. -/
def FewRecords (p : ProduceRequestPartition) : Prop := ∀ b ∈ p.recordBatches, b.FewRecords

theorem codec_yields : FieldRead.Yields codec.read FewRecords :=
  .bind (.any _) fun _ _ => .bind (Codec.batchStream_yields "RecordBatches") fun _ few =>
  .bind (.any _) fun _ _ => .pure few

theorem codec_readsOnly : codec.ReadsOnly FewRecords Fits :=
  .second fun _ => .first (.on (Codec.batchStream_readsOnly "RecordBatches"))

end ProduceRequestPartition

namespace ProduceRequestTopic

def FewRecords (t : ProduceRequestTopic) : Prop := ∀ p ∈ t.partitions, p.FewRecords

theorem codec_yields : FieldRead.Yields codec.read FewRecords :=
  .bind (.any _) fun _ _ => .bind (.compactArray ProduceRequestPartition.codec_yields "Partitions")
    fun _ few => .bind (.any _) fun _ _ => .pure few

theorem codec_readsOnly : codec.ReadsOnly FewRecords Fits :=
  .second fun _ => .first (.on (.compactArray "Partitions" ProduceRequestPartition.codec_readsOnly
    ProduceRequestPartition.codec_lawfulOn))

end ProduceRequestTopic

namespace ProduceRequestBody

def FewRecords (b : ProduceRequestBody) : Prop := ∀ t ∈ b.topics, t.FewRecords

theorem codec_yields :
    FieldRead.Yields (RequestBody.codec (β := ProduceRequestBody)).read FewRecords :=
  .scope (.bind (.any _) fun _ _ => .bind (.any _) fun _ _ => .bind (.any _) fun _ _ =>
    .bind (.compactArray ProduceRequestTopic.codec_yields "Topics") fun _ few =>
    .bind (.any _) fun _ _ => .pure few) "Body"

theorem codec_readsOnly :
    (RequestBody.codec (β := ProduceRequestBody)).ReadsOnly FewRecords Fits :=
  .scope "Body" <| .second fun _ => .second fun _ => .second fun _ =>
    .first (.on (.compactArray "Topics" ProduceRequestTopic.codec_readsOnly
      ProduceRequestTopic.codec_lawfulOn))

end ProduceRequestBody

/-! ### Headers -/

/-- The client id of a header that was read is what stood behind ten bytes, as text. -/
theorem RequestHeader.clientId_of_reads {used : Bytes} {t : Trace} {h : RequestHeader} {id : String}
    (reads : Reads codec.read used t h) (some : h.clientId = some id) :
    ∃ front raw behind : Bytes, used = front ++ (raw ++ behind) ∧ front.length = 10 ∧
      raw.length ≤ Value.maxStringBytes ∧ id = Utf8.decodeLossy raw := by
  obtain ⟨_, body, -⟩ := FieldRead.ok_of_scope (reads.run_start ())
  obtain ⟨apiKey, _, first, body⟩ := ok_of_bind body
  obtain ⟨u₁, left₁, ahead₁, key, rfl⟩ := FieldRead.ok_of_field Kind.Plain.int16.isLocal first
  obtain ⟨apiVersion, _, second, body⟩ := ok_of_bind body
  obtain ⟨u₂, left₂, ahead₂, version, rfl⟩ := FieldRead.ok_of_field Kind.Plain.int16.isLocal second
  obtain ⟨correlationId, _, third, body⟩ := ok_of_bind body
  obtain ⟨u₃, left₃, ahead₃, number, rfl⟩ := FieldRead.ok_of_field Kind.Plain.int32.isLocal third
  obtain ⟨clientId, _, fourth, body⟩ := ok_of_bind body
  obtain ⟨u₄, left₄, ahead₄, text, rfl⟩ := FieldRead.ok_of_field RawRead.string_isLocal fourth
  obtain ⟨_, _, -, last⟩ := ok_of_bind body
  obtain ⟨rfl, -⟩ := EStateM.Result.ok.inj last
  obtain rfl : clientId = _ := some
  obtain ⟨length, raw, rfl, two, short, rfl⟩ := RawRead.some_of_reads_string text
  have ahead₁ : used = u₁ ++ left₁ := ahead₁
  have ahead₂ : left₁ = u₂ ++ left₂ := ahead₂
  have ahead₃ : left₂ = u₃ ++ left₃ := ahead₃
  have ahead₄ : left₃ = length ++ raw ++ left₄ := ahead₄
  refine ⟨u₁ ++ (u₂ ++ (u₃ ++ length)), raw, left₄, ?_, ?_, short, rfl⟩
  · simp only [ahead₁, ahead₂, ahead₃, ahead₄, List.append_assoc]
  · simp only [List.length_append, RawRead.length_of_reads_fixed key,
      RawRead.length_of_reads_fixed version, RawRead.length_of_reads_fixed number, two]

/-- A client id is read from any bytes that a length of 16 bits can count. -/
theorem RequestHeader.reads_raw (apiKey apiVersion : Int16) (correlationId : Int32) {raw : Bytes}
    (short : raw.length ≤ Value.maxStringBytes) :
    ∃ t, Reads codec.read
      ((Value.int16 apiKey).bytes ++ ((Value.int16 apiVersion).bytes ++
        ((Value.int32 correlationId).bytes ++ ((BigEndian.encode 2 raw.length ++ raw) ++ [0]))))
      t ⟨apiKey, apiVersion, correlationId, some (Utf8.decodeLossy raw)⟩ := by
  have key : Kind.int16.read.Reads _ apiKey := RawRead.reads_int16 apiKey
  have version : Kind.int16.read.Reads _ apiVersion := RawRead.reads_int16 apiVersion
  have number : Kind.int32.read.Reads _ correlationId := RawRead.reads_int32 correlationId
  have clientId : Kind.string.read.Reads _ (some _) := RawRead.reads_string_raw short
  exact ⟨_, fun rest => ReadsBefore.scope "Header" <|
    (ReadsBefore.field "APIKey" key).bind <| (ReadsBefore.field "APIVersion" version).bind <|
    (ReadsBefore.field "CorrelationID" number).bind <|
    (ReadsBefore.field "ClientID" clientId).bind <| (Reads.tagBuffer rest).bind_pure fun _ =>
      RequestHeader.mk apiKey apiVersion correlationId (some (Utf8.decodeLossy raw))⟩

namespace Request

variable {β : Type} [RequestBody β] [h : (RequestBody.codec (β := β)).Delimited]
  {may fits : β → Prop} {payload : Bytes} {r : Request β}

/-! ### Parts of payloads -/

/-- A payload that was read is what is read as the header and what is read as the body. -/
theorem parts_of_decode (decoded : decode payload = .ok r) :
    ∃ u v t t', payload = u ++ v ∧ Reads RequestHeader.codec.read u t r.header ∧
      Reads (RequestBody.codec (β := β)).read v t' r.body := by
  obtain ⟨_, reads⟩ := reads_of_decode decoded
  have header : FieldRead.Local RequestHeader.codec.read := Codec.Delimited.delimited.isLocal
  have body : FieldRead.Local (RequestBody.codec (β := β)).read := h.delimited.isLocal
  obtain ⟨header', u, w, t, _, rfl, first, reads⟩ :=
    header.reads_of_bind (fun _ => body.bind fun _ => FieldRead.Local.pure _) reads
  obtain ⟨body', v, _, t', _, rfl, second, last⟩ :=
    body.reads_of_bind (fun _ => FieldRead.Local.pure _) reads
  obtain ⟨rfl, same⟩ := FieldRead.reads_of_pure last
  obtain ⟨rfl, rfl⟩ := Prod.mk.inj same
  exact ⟨u, v, t, t', by rw [List.append_nil], first, second⟩

omit h in
/-- What is read as a header and what is read as a body make up a payload. -/
theorem decode_append {u v : Bytes} {t t' : Trace}
    (header : Reads RequestHeader.codec.read u t r.header)
    (body : Reads (RequestBody.codec (β := β)).read v t' r.body) :
    decode (u ++ v) = .ok r := by
  have front : ReadsBefore [] parts (u ++ v) (t ++ t') (r.header, r.body) :=
    (header _).bind ((body []).bind_pure fun body => (r.header, body))
  have finish : ReadsBefore [] (finish (r.header, r.body)) [] [] r :=
    (readsBefore_finished (Request β) (root β)).bind_pure fun _ => r
  rw [← List.append_nil (u ++ v)]
  have run := ((front.bind finish).scope (root β)).run (ReadState.start (u ++ v ++ []) ())
    (List.append_nil _).symm
  rw [decode, codec_read_eq, run]

/-! ### Sending again -/

omit h in
theorem bytes_encoding (r : Request β) : r.encoding.bytes =
    (RequestHeader.codec.write r.header).2.bytes ++ (RequestBody.codec.write r.body).2.bytes := by
  rw [encoding_eq, Encoding.bytes_scope, Encoding.bytes_append]

/-- The client id, if there is one, is short enough for its length. -/
def ShortId (r : Request β) : Prop :=
  ∀ id, r.header.clientId = some id → (Utf8.encode id).length ≤ Value.maxStringBytes

/-- What becomes of a request that was read from the payload, if it is sent again. -/
structure Resent (payload : Bytes) (r again : Request β) (fits : Prop) : Prop where
  /-- The client id is what stands in its place in the payload, as text, which is short if it was
  text before, or no longer than a third of what a length can count. -/
  named : ∀ id, r.header.clientId = some id → ∃ front raw behind : Bytes,
    payload = front ++ (raw ++ behind) ∧ front.length = 10 ∧ id = Utf8.decodeLossy raw ∧
    ((∃ text, raw = Utf8.encode text) ∨ raw.length ≤ 10922 → r.ShortId)
  /-- If it is short, the request is sent; -/
  sent : r.ShortId → r.encode = .ok (frame r.encoding.bytes)
  /-- if not, that is a fault, which tells how long it is. -/
  refused : ∀ id, r.header.clientId = some id → Value.maxStringBytes < (Utf8.encode id).length →
    r.encode = .error (.overlongString (Utf8.encode id).length)
  /-- What is sent is read as the request once more if its batches fit, -/
  back : r.ShortId → fits → r.encoding.bytes.length < 0x8000000000000000 →
    decode r.encoding.bytes = .ok again
  /-- and is not read at all if they do not. -/
  only : r.ShortId → r.encoding.bytes.length < 0x8000000000000000 → ∀ r' : Request β,
    decode r.encoding.bytes = .ok r' → fits

omit [RequestBody β] h in
theorem ShortId.overlong?_eq_none (short : r.ShortId) :
    (Value.string r.header.clientId).overlong? = none := by
  cases id : r.header.clientId with
  | none => rfl
  | some text => exact if_neg (Nat.not_lt.2 (short text id))

omit h in
/-- The client id is the only text of a request that can be too long. -/
theorem encode_eq_error {id : String} (named : r.header.clientId = some id)
    (long : Value.maxStringBytes < (Utf8.encode id).length) :
    r.encode = .error (.overlongString (Utf8.encode id).length) := by
  have clientId : (Value.string r.header.clientId).overlong? = some (Utf8.encode id).length := by
    rw [named]
    exact if_pos long
  obtain ⟨rest, split⟩ : ∃ rest, r.encoding =
      ⟨[root β, "Header", "APIKey"], .int16 r.header.apiKey⟩ ::
      ⟨[root β, "Header", "APIVersion"], .int16 r.header.apiVersion⟩ ::
      ⟨[root β, "Header", "CorrelationID"], .int32 r.header.correlationId⟩ ::
      ⟨[root β, "Header", "ClientID"], .string r.header.clientId⟩ :: rest := ⟨_, encoding_eq r⟩
  have first : r.encoding.findSome? (fun l => l.value.overlong?) =
      some (Utf8.encode id).length := by
    rw [split, List.findSome?_cons_of_isNone rfl, List.findSome?_cons_of_isNone rfl,
      List.findSome?_cons_of_isNone rfl, List.findSome?_cons]
    simp only [clientId]
  rw [encode, Encoding.render, first]
  rfl

/-- The one client id that there is. -/
theorem named_of_decode (decoded : decode payload = .ok r) {id : String}
    (named : r.header.clientId = some id) : ∃ front raw behind : Bytes,
      payload = front ++ (raw ++ behind) ∧ front.length = 10 ∧ id = Utf8.decodeLossy raw ∧
      ((∃ text, raw = Utf8.encode text) ∨ raw.length ≤ 10922 → r.ShortId) := by
  obtain ⟨u, v, _, _, rfl, header, -⟩ := parts_of_decode decoded
  obtain ⟨front, raw, behind, rfl, ten, short, rfl⟩ :=
    RequestHeader.clientId_of_reads header named
  refine ⟨front, raw, behind ++ v, by simp only [List.append_assoc], ten, rfl, fun kept => ?_⟩
  intro id same
  obtain rfl := Option.some.inj (named.symm.trans same)
  rcases kept with ⟨text, rfl⟩ | small
  · rw [Utf8.decodeLossy_encode]
    exact short
  · have longer := Utf8.length_encode_decodeLossy_le raw
    show _ ≤ 32767
    omega

/-- **What becomes of a request that was read**, whatever the API: `may` is what any body that is
read has, and `fits` what it takes for a body to be read again. -/
theorem resent_of_decode (lawful : (RequestBody.codec (β := β)).LawfulOn fits)
    (yields : FieldRead.Yields (RequestBody.codec (β := β)).read may)
    (exact : (RequestBody.codec (β := β)).ReadsOnly may fits)
    (decoded : decode payload = .ok r) : r.Resent payload r.writtenBack (fits r.body) where
  named _ named := named_of_decode decoded named
  sent short := by
    obtain ⟨_, v, _, _, -, -, body⟩ := parts_of_decode decoded
    have header := RequestHeader.codec_lawfulOn.short r.header short.overlong?_eq_none
    have whole : r.encoding.Short := by
      rw [encoding_eq]
      exact (header.append (exact.short r.body (yields _ _ _ (body.run_start ())))).scope _
    rw [encode, whole.render]
    rfl
  refused _ named long := encode_eq_error named long
  back short fine small := by
    obtain ⟨s, run, -⟩ := read_whole
      (readsBefore_encoding lawful short.overlong?_eq_none fine small)
    rw [decode, run]
  only short small r' again := by
    obtain ⟨_, v, _, _, -, -, body⟩ := parts_of_decode decoded
    obtain ⟨u, w, _, _, whole, header, body'⟩ := parts_of_decode again
    rw [bytes_encoding] at whole
    rw [bytes_encoding, List.length_append] at small
    have written :=
      RequestHeader.codec_lawfulOn.reads r.header short.overlong?_eq_none (by omega)
    obtain ⟨-, same, -⟩ := written.unique header whole
    have whole : w ++ [] = (RequestBody.codec.write r.body).2.bytes ++ [] := by rw [same]
    exact exact.ok_of_reads (yields _ _ _ (body.run_start ())) (by omega) whole body'

end Request

/-! ### Bodies with one log -/

/-- A body with batches for one partition. -/
def logBody (bs : List RecordBatch) : ProduceRequestBody where
  transactionalId := none
  acks := 0
  timeoutMs := 0
  topics := [⟨"", [⟨0, bs⟩]⟩]

/-- It is read from any log of the batches, whoever wrote that. -/
theorem reads_logBody {bs : List RecordBatch} {log : Bytes} (decoded : decodeLog log = .ok bs)
    (small : log.length + 1 < 0x10000000000000000) :
    ∃ v t, Reads (RequestBody.codec (β := ProduceRequestBody)).read v t (logBody bs) := by
  have one : Kind.compactArrayLength.read.Reads [2] 2 := RawRead.reads_unsignedVarint 2
  have zero : Kind.int32.read.Reads _ 0 := RawRead.reads_int32 0
  have acks : Kind.int16.read.Reads _ 0 := RawRead.reads_int16 0
  have none : Kind.compactNullableString.read.Reads _ none :=
    RawRead.reads_compactNullableString nofun
  have empty : Kind.compactString.read.Reads _ "" := RawRead.reads_compactString (by decide)
  obtain ⟨_, stream⟩ := reads_batchStream decoded "RecordBatches" (streamSize_counts small).2
    (RawRead.reads_unsignedVarint _)
  have partition : Reads ProduceRequestPartition.codec.read _ _ ⟨0, bs⟩ := fun rest =>
    (ReadsBefore.field "ID" zero).bind <| (stream _).bind <|
    (Reads.tagBuffer rest).bind_pure fun _ => ProduceRequestPartition.mk 0 bs
  have topic : Reads ProduceRequestTopic.codec.read _ _ ⟨"", [⟨0, bs⟩]⟩ := fun rest =>
    (ReadsBefore.field "Name" empty).bind <|
    (Reads.compactArray_singleton "Partitions" partition one _).bind <|
    (Reads.tagBuffer rest).bind_pure fun _ => ProduceRequestTopic.mk "" [⟨0, bs⟩]
  exact ⟨_, _, fun rest => ReadsBefore.scope "Body" <|
    (ReadsBefore.field "TransactionalID" none).bind <| (ReadsBefore.field "Acks" acks).bind <|
    (ReadsBefore.field "TimeoutMs" zero).bind <|
    (Reads.compactArray_singleton "Topics" topic one _).bind <|
    (Reads.tagBuffer rest).bind_pure fun _ => logBody bs⟩

theorem length_logBody (bs : List RecordBatch) :
    (RequestBody.codec.write (logBody bs)).2.bytes.length =
      ((Codec.batchStream "RecordBatches").write bs).2.bytes.length + 17 := by
  let partition : Encoding := Encoding.leaf "ID" (.int32 0) ++
    (((Codec.batchStream "RecordBatches").write bs).2 ++ (Encoding.emptyTagBuffer ++ []))
  let topic : Encoding := Encoding.leaf "Name" (.compactString "") ++
    (Encoding.compactArray "Partitions" [partition] ++ (Encoding.emptyTagBuffer ++ []))
  have fields : (RequestBody.codec.write (logBody bs)).2 = Encoding.scope "Body"
      (Encoding.leaf "TransactionalID" (.compactNullableString none) ++
      (Encoding.leaf "Acks" (.int16 0) ++ (Encoding.leaf "TimeoutMs" (.int32 0) ++
      (Encoding.compactArray "Topics" [topic] ++ (Encoding.emptyTagBuffer ++ []))))) := rfl
  have null : (Value.compactNullableString none).bytes.length = 1 := rfl
  have empty : (Value.compactString "").bytes.length = 1 := rfl
  have int16 : (Value.int16 0).bytes.length = 2 := rfl
  have int32 : (Value.int32 0).bytes.length = 4 := rfl
  have one : (Encoding.compactLength 1).bytes.length = 1 := rfl
  have tags : Encoding.emptyTagBuffer.bytes.length = 1 := rfl
  rw [fields]
  simp only [topic, partition, Encoding.compactArray, Encoding.bytes_append, Encoding.bytes_leaf,
    Encoding.bytes_scope, Encoding.bytes_items, List.length_append, List.append_nil,
    List.flatMap_cons, List.flatMap_nil, List.length_singleton, null, empty, int16, int32, one,
    tags]
  omega

/-! ### Requests that cannot be read again -/

namespace Request

/-- A request for the versions with the bytes as its client id. -/
def versionsPayload (raw : Bytes) : Bytes :=
  [0, 18, 0, 4, 0, 0, 0, 7] ++ (BigEndian.encode 2 raw.length ++ raw) ++ [0] ++ [1, 1, 0]

theorem decode_versionsPayload {raw : Bytes} (short : raw.length ≤ Value.maxStringBytes) :
    decode (versionsPayload raw) = .ok (⟨⟨18, 4, 7, some (Utf8.decodeLossy raw)⟩, ⟨"", ""⟩⟩ :
      Request ApiVersionsRequestBody) := by
  obtain ⟨_, header⟩ := RequestHeader.reads_raw 18 4 7 short
  have lawful : (RequestBody.codec (β := ApiVersionsRequestBody)).LawfulOn fun _ => True :=
    Codec.Lawful.on_all
  have body : Reads _ [1, 1, 0] _ (⟨"", ""⟩ : ApiVersionsRequestBody) :=
    lawful.reads ⟨"", ""⟩ trivial (by decide)
  rw [versionsPayload, List.append_assoc [0, 18, 0, 4, 0, 0, 0, 7]]
  exact decode_append (r := ⟨_, _⟩) header body

/-- Three bytes for each byte of the client id are too many. -/
theorem encode_eq_error_of_replaced {n : Nat} {h : RequestHeader} {b : ApiVersionsRequestBody}
    (named : h.clientId = some (Utf8.decodeLossy (List.replicate n 0xFF))) (long : 32767 < 3 * n) :
    encode ⟨h, b⟩ = .error (.overlongString (3 * n)) := by
  have length : (Utf8.encode (Utf8.decodeLossy (List.replicate n 0xFF))).length = 3 * n :=
    Utf8.length_encode_decodeLossy_replicate rfl n
  rw [encode_eq_error (r := ⟨h, b⟩) named (by rw [length]; exact long), length]

/-- A request with a batch that outgrows its length. -/
theorem exists_outgrown {n : Nat} (large : 0x80000000 ≤ 3 * n) (small : n + 140 < 0x80000000) :
    ∃ (payload : Bytes) (r : Request ProduceRequestBody), decode payload = .ok r ∧ r.ShortId ∧
      ¬ r.body.Fits ∧ r.encoding.bytes.length < 0x8000000000000000 := by
  let raw : Bytes := List.replicate n 0xFF
  have count : raw.length = n := List.length_replicate
  have replaced : (Utf8.encode (Utf8.decodeLossy raw)).length = 3 * n :=
    Utf8.length_encode_decodeLossy_replicate rfl n
  obtain ⟨log, b, decoded, few, covered⟩ := RecordBatch.exists_replaced (count.symm ▸ small)
  rw [RecordBatch.coveredBytes_ofKey] at covered
  obtain ⟨least, most⟩ := RecordBatch.length_rawCovered (Utf8.encode (Utf8.decodeLossy raw))
  rw [← covered, replaced] at least most
  obtain ⟨v, _, body⟩ := reads_logBody decoded (by omega)
  have header : Reads RequestHeader.codec.read _ _ ⟨0, 11, 7, none⟩ :=
    RequestHeader.codec_lawfulOn.reads ⟨0, 11, 7, none⟩ rfl (by decide)
  let r : Request ProduceRequestBody := ⟨⟨0, 11, 7, none⟩, logBody [b]⟩
  refine ⟨_, r, decode_append header body, nofun, fun fits => ?_, ?_⟩
  · have fits : b.Fits := fits _ List.mem_cons_self _ List.mem_cons_self b List.mem_cons_self
    have short : b.coveredBytes.length + 9 < 0x80000000 := fits
    omega
  · have front : (RequestHeader.codec.write ⟨0, 11, 7, none⟩).2.bytes.length = 11 := by decide
    have stream := length_batchStream_le "RecordBatches" [b]
    have batch : (encodeLog [b]).length = b.coveredBytes.length + 21 := by
      rw [encodeLog, List.flatMap_singleton, b.length_bytes, RecordBatch.bytesBeforeCovered]
      omega
    rw [bytes_encoding, List.length_append, front, length_logBody]
    omega

end Request

/-! ### All requests -/

open Request in
/-- **What becomes of any request that was read**, if it is sent again.  It is sent exactly if its
client id is short, and is then read as the same request with its record batches in normal form,
exactly if those fit their lengths. -/
theorem decoded_resent (payload : Bytes) :
    (∀ r : Request ApiVersionsRequestBody, decode payload = .ok r → r.Resent payload r True) ∧
    (∀ r : Request DescribeTopicPartitionsRequestBody, decode payload = .ok r →
      r.Resent payload r True) ∧
    (∀ r : Request FetchRequestBody, decode payload = .ok r → r.Resent payload r True) ∧
    (∀ r : Request ProduceRequestBody, decode payload = .ok r →
      r.Resent payload { r with body := r.body.normalized } r.body.Fits) := by
  refine ⟨?_, ?_, ?_, ?_⟩
  · intro r decoded
    exact resent_of_decode Codec.Lawful.on_all (.any _) .of decoded
  · intro r decoded
    have resent := resent_of_decode Codec.Lawful.on_all (.any _) .of decoded
    rwa [writtenBack, DescribeTopicPartitionsRequestBody.codec_write_fst] at resent
  · intro r decoded
    have resent := resent_of_decode Codec.Lawful.on_all (.any _) .of decoded
    rwa [writtenBack, FetchRequestBody.codec_write_fst] at resent
  · intro r decoded
    have resent := resent_of_decode ProduceRequestBody.codec_lawfulOn
      ProduceRequestBody.codec_yields ProduceRequestBody.codec_readsOnly decoded
    rwa [writtenBack, ProduceRequestBody.codec_write_fst] at resent

/-- A request for the description of topics, of which there is a null array. -/
def describePayload : Bytes := [0, 75, 0, 0, 0, 0, 0, 7, 0xFF, 0xFF, 0] ++ [0, 0, 0, 0, 1, 0xFF, 0]

/-- A request for records, with null arrays. -/
def fetchPayload : Bytes :=
  [0, 1, 0, 16, 0, 0, 0, 7, 0xFF, 0xFF, 0] ++ [0, 0, 1, 0xF4, 0, 0, 0, 1, 0, 0, 4, 0] ++
    [0, 0, 0, 0, 0, 0, 0, 0, 0] ++ [0, 0, 1, 0]

open Request in
/-- Payloads of all APIs are read: with a client id that is no text, with arrays that are null, and
with batches. -/
theorem decoded_resent_samples :
    (∃ r : Request ApiVersionsRequestBody, decode (versionsPayload [0xFF, 0x61]) = .ok r ∧
      r.encode = .ok (frame r.encoding.bytes) ∧ decode r.encoding.bytes = .ok r) ∧
    (∃ r : Request DescribeTopicPartitionsRequestBody, decode describePayload = .ok r ∧
      r.Resent describePayload r True) ∧
    (∃ r : Request FetchRequestBody, decode fetchPayload = .ok r ∧
      r.Resent fetchPayload r True) ∧
    ∃ r : Request ProduceRequestBody, decode sampleProduceRequest.encoding.bytes = .ok r ∧
      r.encode = .ok (frame r.encoding.bytes) ∧
      decode r.encoding.bytes = .ok { r with body := r.body.normalized } := by
  refine ⟨?_, ?_, ?_, ?_⟩
  · have raw : List.length [(0xFF : UInt8), 0x61] ≤ Value.maxStringBytes := by decide
    have read := decode_versionsPayload raw
    have resent := (decoded_resent _).1 _ read
    have short : ShortId (⟨⟨18, 4, 7, some (Utf8.decodeLossy [0xFF, 0x61])⟩, ⟨"", ""⟩⟩ :
        Request ApiVersionsRequestBody) := by
      rintro id ⟨⟩
      decide +kernel
    exact ⟨_, read, resent.sent short, resent.back short trivial (by decide +kernel)⟩
  · have read : decode describePayload =
        .ok (⟨⟨75, 0, 7, none⟩, ⟨[], 1, none⟩⟩ : Request DescribeTopicPartitionsRequestBody) := by
      decide +kernel
    exact ⟨_, read, (decoded_resent _).2.1 _ read⟩
  · have read : decode fetchPayload = .ok (⟨⟨1, 16, 7, none⟩, ⟨500, 1, 1024, 0, 0, 0, [], [], ""⟩⟩ :
        Request FetchRequestBody) := by
      decide +kernel
    exact ⟨_, read, (decoded_resent _).2.2.1 _ read⟩
  · obtain ⟨-, s, sent, -⟩ := sendable_sampleProduceRequest.read ProduceRequestBody.codec_lawfulOn
      (ProduceRequestBody.fits_of_length
        (Nat.lt_of_le_of_lt sampleProduceRequest.length_body_le sendable_sampleProduceRequest.2))
    have read : decode sampleProduceRequest.encoding.bytes =
        .ok sampleProduceRequest.writtenBack := by
      rw [decode, sent]
    have length : sampleProduceRequest.writtenBack.encoding.bytes.length = 117 := by
      decide +kernel
    have small := sampleProduceRequest.writtenBack.length_body_le
    rw [length] at small
    have resent := (decoded_resent _).2.2.2 _ read
    have short : sampleProduceRequest.writtenBack.ShortId := sendable_sampleProduceRequest.1
    exact ⟨_, read, resent.sent short, resent.back short
      (ProduceRequestBody.fits_of_length (by omega)) (by rw [length]; decide)⟩

open Request in
/-- A client id of 10923 bytes of which none is text is read, but its text takes 32769 bytes, and
sending it is a fault.  A batch whose text outgrows its length is sent, but nothing is read of
it. -/
theorem not_decoded_resent :
    (∃ r : Request ApiVersionsRequestBody,
      decode (versionsPayload (List.replicate 10923 0xFF)) = .ok r ∧
      r.encode = .error (.overlongString 32769)) ∧
    ∃ (payload : Bytes) (r : Request ProduceRequestBody), decode payload = .ok r ∧
      r.encode = .ok (frame r.encoding.bytes) ∧
      ∀ r' : Request ProduceRequestBody, decode r.encoding.bytes ≠ .ok r' := by
  constructor
  · have short : (List.replicate 10923 (0xFF : UInt8)).length ≤ Value.maxStringBytes := by
      rw [List.length_replicate]
      decide
    exact ⟨_, decode_versionsPayload short,
      encode_eq_error_of_replaced (n := 10923) rfl (by decide)⟩
  · obtain ⟨payload, r, decoded, short, outgrown, small⟩ :=
      exists_outgrown (n := 715827883) (by decide) (by decide)
    have resent := resent_of_decode ProduceRequestBody.codec_lawfulOn
      ProduceRequestBody.codec_yields ProduceRequestBody.codec_readsOnly decoded
    exact ⟨payload, r, decoded, resent.sent short, fun r' again =>
      outgrown (resent.only short small r' again)⟩

end BrokerExam
