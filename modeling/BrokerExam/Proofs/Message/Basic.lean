/-
BrokerExam/Proofs/Message/Basic.lean

Messages read back, whatever the API.  A message is a header and a body that
take all the bytes there are; so it is enough that the codec of the body is
lawful on the body.

Main results: `Request.readsBefore_encoding` and `Response.readsBefore_encoding`;
`read_whole` adds where reading stops and which fields it has recorded by then.
-/
import BrokerExam.Proofs.Wire.Lawful
import BrokerExam.Message.Basic

namespace BrokerExam

/-! ### Headers -/

theorem RequestHeader.codec_lawfulOn :
    RequestHeader.codec.LawfulOn fun h => (Value.string h.clientId).overlong? = none :=
  .scope "Header" <|
    .bind .of fun _ => .bind .of fun _ => .bind .of fun _ =>
    .bind (.on (Codec.lawfulOn_string "ClientID") fun _ short => short) fun _ => .of

namespace ResponseHeader

theorem codec_true : codec true = Codec.scope "Header" (do
    let correlationId ← (Codec.int32 "CorrelationID").on ResponseHeader.correlationId
    Codec.tagBuffer
    return { correlationId }) := rfl

theorem codec_false : codec false = Codec.scope "Header" (do
    let correlationId ← (Codec.int32 "CorrelationID").on ResponseHeader.correlationId
    return { correlationId }) := rfl

instance (flexible : Bool) : (codec flexible).Lawful := by
  cases flexible with
  | false =>
    rw [codec_false]
    infer_instance
  | true =>
    rw [codec_true]
    infer_instance

theorem codec_write_fst (flexible : Bool) (h : ResponseHeader) :
    ((codec flexible).write h).1 = h := by
  cases flexible <;> rfl

theorem length_codec_write (flexible : Bool) (h : ResponseHeader) :
    ((codec flexible).write h).2.bytes.length = if flexible then 5 else 4 := by
  cases flexible with
  | false =>
    show (Encoding.bytes (Encoding.scope "Header"
      (Encoding.leaf "CorrelationID" (.int32 h.correlationId) ++ []))).length = 4
    rw [Encoding.bytes_scope, List.append_nil, Encoding.bytes_leaf]
    exact BigEndian.length_encode 4 _
  | true =>
    show (Encoding.bytes (Encoding.scope "Header"
      (Encoding.leaf "CorrelationID" (.int32 h.correlationId) ++
        (Encoding.emptyTagBuffer ++ [])))).length = 5
    rw [Encoding.bytes_scope, List.append_nil, Encoding.bytes_append, Encoding.bytes_leaf,
      List.length_append]
    exact congrArg (· + 1) (BigEndian.length_encode 4 _)

end ResponseHeader

/-! ### The end of a message -/

/-- At the end there is nothing left to complain about. -/
theorem readsBefore_finished (α : Type) (root : String) :
    ReadsBefore [] (Codec.finished root : Codec α Unit).read [] [] () where
  width := rfl
  run := by
    intro s ahead
    have none : s.cursor.ahead.length = 0 := by
      rw [ahead]
      rfl
    show (FieldRead.remaining >>= fun left => if left = 0 then pure () else _) s = _
    rw [bind_of_ok (FieldRead.remaining_ok s), if_pos none]
    exact (ReadsBefore.pure ()).run s ahead

/-- Where a message ends well there is nothing left. -/
theorem ok_of_finished {α : Type} {root : String} {s s' : ReadState Unit}
    (run : (Codec.finished root : Codec α Unit).read s = .ok () s') :
    s' = s ∧ s.cursor.ahead = [] := by
  obtain ⟨_, _, left, run⟩ := ok_of_bind run
  obtain ⟨rfl, rfl⟩ := EStateM.Result.ok.inj left
  split at run
  · next none =>
    obtain ⟨-, rfl⟩ := EStateM.Result.ok.inj run
    exact ⟨rfl, List.eq_nil_of_length_eq_zero none⟩
  · obtain ⟨_, _, -, run⟩ := ok_of_bind run
    cases run

/-- What is left at the end of a message is complained of. -/
theorem error_finished (α : Type) (root : String) {s : ReadState Unit}
    (some : s.cursor.ahead ≠ []) : (Codec.finished root : Codec α Unit).read s =
      .error ⟨s.path, s.cursor.offset, s.cursor.stop,
        .invalidLength (.trailingMessage s.cursor.ahead.length root)⟩ s := by
  have left : ¬ s.cursor.ahead.length = 0 := fun none => some (List.eq_nil_of_length_eq_zero none)
  show (FieldRead.remaining >>= fun left => if left = 0 then pure () else _) s = _
  rw [bind_of_ok (FieldRead.remaining_ok s), if_neg left]
  rfl

/-- Where reading the front of a payload stops, and what it has recorded by then. -/
theorem read_front {α : Type} {r : FieldRead α} {e : Encoding} {a : α} {rest : Bytes}
    (h : ReadsBefore rest r e.bytes e.trace a) :
    ∃ s, r (ReadState.start (e.bytes ++ rest) ()) = .ok a s ∧
      s.cursor = ⟨e.bytes.length, rest⟩ ∧ s.fields.toList = e.fields := by
  refine ⟨_, h.run _ rfl, ?_, ?_⟩
  · simp only [ReadState.past, ReadState.start, Cursor.start, Nat.zero_add, Encoding.width_trace]
  · rw [Encoding.fields_eq_trace]
    simp only [ReadState.past, ReadState.start, Cursor.start, Array.toList_append, List.nil_append]

/-- Reading a whole payload leaves nothing. -/
theorem read_whole {α : Type} {r : FieldRead α} {e : Encoding} {a : α}
    (h : ReadsBefore [] r e.bytes e.trace a) :
    ∃ s, r (ReadState.start e.bytes ()) = .ok a s ∧
      s.cursor = ⟨e.bytes.length, []⟩ ∧ s.fields.toList = e.fields := by
  have front := read_front h
  rwa [List.append_nil] at front

/-! ### Requests -/

namespace Request

variable {β : Type} [RequestBody β] {ok : β → Prop}

/-- The request as it reads back. -/
def writtenBack (r : Request β) : Request β :=
  { header := r.header, body := (RequestBody.codec.write r.body).1 }

theorem encoding_eq (r : Request β) :
    r.encoding = Encoding.scope (root β)
      ((RequestHeader.codec.write r.header).2 ++ (RequestBody.codec.write r.body).2) := by
  show Encoding.scope (root β) (_ ++ (_ ++ [])) = _
  rw [List.append_nil]
  rfl

theorem length_body_le (r : Request β) :
    (RequestBody.codec.write r.body).2.bytes.length ≤ r.encoding.bytes.length := by
  rw [encoding_eq, Encoding.bytes_scope, Encoding.bytes_append, List.length_append]
  exact Nat.le_add_left _ _

theorem short_encoding (lawful : (RequestBody.codec (β := β)).LawfulOn ok) {r : Request β}
    (short : (Value.string r.header.clientId).overlong? = none) (fits : ok r.body) :
    r.encoding.Short := by
  rw [encoding_eq]
  exact Encoding.Short.scope _
    ((RequestHeader.codec_lawfulOn.short r.header short).append (lawful.short r.body fits))

/-- **A request reads back** if its client id and its body can be written. -/
theorem readsBefore_encoding (lawful : (RequestBody.codec (β := β)).LawfulOn ok) {r : Request β}
    (short : (Value.string r.header.clientId).overlong? = none) (fits : ok r.body)
    (small : r.encoding.bytes.length < 0x8000000000000000) :
    ReadsBefore [] codec.read r.encoding.bytes r.encoding.trace r.writtenBack := by
  rw [encoding_eq, Encoding.bytes_scope, Encoding.bytes_append, List.length_append] at small
  have header := RequestHeader.codec_lawfulOn.reads r.header short (by omega)
  have body := lawful.reads r.body fits (by omega)
  have finish := (readsBefore_finished (Request β) (root β)).bind_pure fun _ => r.writtenBack
  have whole := (header _).bind (f := fun header => do
    let body ← RequestBody.codec.read
    let _ ← (Codec.finished (root β) : Codec (Request β) Unit).read
    pure (⟨header, body⟩ : Request β)) ((body _).bind finish)
  rw [List.append_nil, List.append_nil, ← Encoding.bytes_append, ← Encoding.trace_append] at whole
  rw [encoding_eq, Encoding.bytes_scope, Encoding.trace_scope]
  exact whole.scope (root β)

end Request

/-! ### Responses -/

namespace Response

variable {β : Type} [ResponseBody β] {ok : β → Prop}

/-- What stands behind header and body: nothing is written, and nothing may be left, unless the
body says that it ends early. -/
def ending (header : ResponseHeader) (body : β) : Codec (Response β) (Response β) :=
  if ResponseBody.endsEarly body then do
    pure ()
    return { header, body }
  else do
    Codec.finished (root β)
    return { header, body }

theorem codec_eq : (codec : Codec (Response β) (Response β)) = Codec.scope (root β) (do
    let header ← (ResponseHeader.codec (ResponseBody.flexibleHeader β)).on (·.header)
    let body ← ResponseBody.codec.on (·.body)
    ending header body) := rfl

theorem ending_write (header : ResponseHeader) (body : β) (r : Response β) :
    (ending header body).write r = (⟨header, body⟩, []) := by
  unfold ending
  split <;> rfl

theorem readsBefore_ending (header : ResponseHeader) (body : β) :
    ReadsBefore [] (ending header body).read [] [] ⟨header, body⟩ := by
  unfold ending
  split
  · exact (ReadsBefore.pure ()).bind_pure fun _ => (⟨header, body⟩ : Response β)
  · exact (readsBefore_finished (Response β) (root β)).bind_pure
      fun _ => (⟨header, body⟩ : Response β)

/-- A body that ends early makes nothing of what is left. -/
theorem readsBefore_ending_early (rest : Bytes) (header : ResponseHeader) {body : β}
    (h : ResponseBody.endsEarly body = true) :
    ReadsBefore rest (ending header body).read [] [] ⟨header, body⟩ := by
  unfold ending
  rw [if_pos h]
  exact (ReadsBefore.pure ()).bind_pure fun _ => (⟨header, body⟩ : Response β)

/-- Where a response has been read there is nothing left, unless its body ends early. -/
theorem ok_of_ending {header : ResponseHeader} {body : β} {r : Response β} {s s' : ReadState Unit}
    (run : (ending header body).read s = .ok r s') :
    r = ⟨header, body⟩ ∧ s' = s ∧ (ResponseBody.endsEarly body = false → s.cursor.ahead = []) := by
  unfold ending at run
  split at run
  · next early =>
    obtain ⟨rfl, rfl⟩ := EStateM.Result.ok.inj run
    exact ⟨rfl, rfl, fun late => absurd (early.symm.trans late) (by decide)⟩
  · obtain ⟨_, s₁, finish, run⟩ := ok_of_bind run
    obtain ⟨rfl, rfl⟩ := EStateM.Result.ok.inj run
    obtain ⟨rfl, none⟩ := ok_of_finished finish
    exact ⟨rfl, rfl, fun _ => none⟩

/-- The end of a response complains of nothing but bytes that are left. -/
theorem error_of_ending {header : ResponseHeader} {body : β} {e : DecodeError}
    {s s' : ReadState Unit} (run : (ending header body).read s = .error e s') :
    s' = s ∧ 0 < s.cursor.ahead.length ∧ e = ⟨s.path, s.cursor.offset, s.cursor.stop,
      .invalidLength (.trailingMessage s.cursor.ahead.length (root β))⟩ := by
  unfold ending at run
  split at run
  · cases run
  · rcases error_of_bind run with finish | ⟨_, _, -, done⟩
    · rcases error_of_bind finish with left | ⟨_, _, left, finish⟩
      · cases left
      · obtain ⟨rfl, rfl⟩ := EStateM.Result.ok.inj left
        split at finish
        · cases finish
        · next some =>
          obtain ⟨rfl, rfl⟩ := EStateM.Result.error.inj finish
          exact ⟨rfl, Nat.pos_of_ne_zero some, rfl⟩
    · cases done

/-- What is written for the response. -/
def encoding (r : Response β) : Encoding := (codec.write r).2

/-- The response as it reads back. -/
def writtenBack (r : Response β) : Response β :=
  { header := r.header, body := (ResponseBody.codec.write r.body).1 }

/-- What is written for the header. -/
def headerEncoding (r : Response β) : Encoding :=
  ((ResponseHeader.codec (ResponseBody.flexibleHeader β)).write r.header).2

theorem encoding_eq (r : Response β) :
    r.encoding = Encoding.scope (root β)
      (r.headerEncoding ++ (ResponseBody.codec.write r.body).2) := by
  rw [encoding, codec_eq]
  show Encoding.scope (root β) (_ ++ (_ ++ ((ending _ _).write r).2)) = _
  rw [ending_write, List.append_nil]
  rfl

theorem length_body_le (r : Response β) :
    (ResponseBody.codec.write r.body).2.bytes.length ≤ r.encoding.bytes.length := by
  rw [encoding_eq, Encoding.bytes_scope, Encoding.bytes_append, List.length_append]
  exact Nat.le_add_left _ _

/-- What is read of the header and, in front of the rest, of the body makes up a response. -/
theorem readsBefore_parts {r : Response β} {e : Encoding} {body : β} {rest : Bytes}
    (h : ReadsBefore rest (ResponseBody.codec (β := β)).read e.bytes e.trace body)
    (stop : ReadsBefore rest (ending r.header body).read [] [] ⟨r.header, body⟩) :
    ReadsBefore rest codec.read (Encoding.scope (root β) (r.headerEncoding ++ e)).bytes
      (Encoding.scope (root β) (r.headerEncoding ++ e)).trace ⟨r.header, body⟩ := by
  have small : r.headerEncoding.bytes.length < 0x8000000000000000 := by
    rw [headerEncoding, ResponseHeader.length_codec_write]
    split <;> decide
  have header : ReadsBack _ r.headerEncoding _ :=
    Codec.Lawful.on_all.reads r.header trivial small
  rw [ResponseHeader.codec_write_fst] at header
  have tail : ReadsBefore rest (do
      let body ← ResponseBody.codec.read
      (ending r.header body).read) (e.bytes ++ []) (e.trace ++ []) ⟨r.header, body⟩ :=
    ReadsBefore.bind h stop
  rw [List.append_nil, List.append_nil] at tail
  have whole := (header _).bind (f := fun header => do
    let body ← ResponseBody.codec.read
    (ending header body).read) tail
  rw [← Encoding.bytes_append, ← Encoding.trace_append] at whole
  rw [Encoding.bytes_scope, Encoding.trace_scope, codec_eq]
  exact whole.scope (root β)

/-- **A response reads back** if its body can be written. -/
theorem readsBefore_encoding (lawful : (ResponseBody.codec (β := β)).LawfulOn ok) {r : Response β}
    (fits : ok r.body) (small : r.encoding.bytes.length < 0x8000000000000000) :
    ReadsBefore [] codec.read r.encoding.bytes r.encoding.trace r.writtenBack := by
  have body := lawful.reads r.body fits (Nat.lt_of_le_of_lt r.length_body_le small)
  rw [encoding_eq]
  exact readsBefore_parts (body []) (readsBefore_ending r.header _)

end Response
end BrokerExam
