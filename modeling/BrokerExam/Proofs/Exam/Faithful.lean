/-
BrokerExam/Proofs/Exam/Faithful.lean

A broker that is faithful byte for byte is never failed: neither when it hands out
the bytes of a log, nor when it keeps the bytes that it was sent, each batch with
the offset that the broker gave it in the place of its first eight bytes.

Main result: `faithful_broker_passes`.
-/
import BrokerExam.Exam.Producing
import BrokerExam.LogDirectory.Contents
import BrokerExam.Proofs.Batch.Influence
import BrokerExam.Proofs.Message.ProduceRequest
import BrokerExam.Proofs.Verdict.FetchFaithful
import BrokerExam.Proofs.Verdict.OnDisk

namespace BrokerExam

open Rehearsal

/-! ### What is handed out -/

/-- A batch has no more bytes than a log that holds it. -/
theorem length_bytes_le_encodeLog {bs : List RecordBatch} {b : RecordBatch} (hb : b ∈ bs) :
    b.bytes.length ≤ (encodeLog bs).length :=
  (List.sublist_flatten_of_mem (List.mem_map_of_mem hb)).length_le

namespace PartitionReply

variable {correlationId : Int32} {topic : Uuid} {id : Int32} {log : Bytes}

theorem length_log_le (reply : PartitionReply correlationId topic id log) :
    log.length ≤ reply.payload.length := by
  simp only [payload, bodyBytes, topicBytes, partitionBytes, List.length_append]
  omega

/-- The log can be read, and when what it is read as is expected, judging the answer ends in every
world with the response that has these batches. -/
def Passes (reply : PartitionReply correlationId topic id log) : Prop :=
  ∃ batches, decodeLog log = .ok batches ∧ ∀ ignoreSize w, ∃ w',
    (Verdict.judgeMessage (FetchExpectation.ofPartition correlationId topic id batches)
      ⟨frame reply.payload⟩ ignoreSize : Tried InWorld _).run w =
        .ok (.ok (reply.response batches)) w'

/-- **Handing out a log passes**, whatever batches were written to it. -/
theorem passes_encodeLog {bs : List RecordBatch}
    (reply : PartitionReply correlationId topic id (encodeLog bs))
    (short : reply.payload.length < 0x80000000) : reply.Passes := by
  -- the log is part of a payload whose length is told in a signed number
  have fits : ∀ b ∈ bs, b.Fits := fun b hb => RecordBatch.fits_of_length <|
    calc b.bytes.length
      _ ≤ (encodeLog bs).length := length_bytes_le_encodeLog hb
      _ ≤ reply.payload.length := reply.length_log_le
      _ < 0x80000000 := short
  have decoded := decodeLog_encodeLog fits
  refine ⟨_, decoded, fun ignoreSize w => ?_⟩
  obtain ⟨w', run⟩ := Verdict.comesTo_judgeMessage (FetchExpectation.ofPartition correlationId topic
    id (bs.map RecordBatch.normalized)) ⟨frame reply.payload⟩ ignoreSize w
  rw [reply.passes decoded short] at run
  exact ⟨w', run⟩

end PartitionReply

/-! ### What is kept -/

/-- A batch of messages that was sent, at its place in a request, and the offset that the broker
gave it. -/
structure Sending where
  time : Int64
  messages : List String
  request : Request ProduceRequestBody
  place : ProduceRequestBody.Place
  holds : request.body.batch? place = some (Exam.producedBatch time messages)
  message : Bytes
  encoded : request.encode = .ok message
  offset : Int64

namespace Sending

variable (s : Sending)

def batch : RecordBatch := Exam.producedBatch s.time s.messages

/-- The bytes of the batch as they were sent. -/
def sent : Bytes := (s.request.encoding.below s.place.path).bytes

/-- What was sent, with the offset in the place of the first eight bytes. -/
def stored : Bytes := BigEndian.encode 8 s.offset.toUInt64.toNat ++ s.sent.drop 8

/-- What was sent stands in the message in one piece. -/
theorem sent_infix : s.sent <:+: s.message := by
  obtain ⟨payload, rendered, framed⟩ := Except.bind_eq_ok_iff.1 s.encoded
  have held := ProduceRequestBody.holds_batch s.holds
  rw [sent, held.bytes_below, ← Except.ok.inj framed, Encoding.eq_of_render rendered]
  exact held.infix_bytes.trans (List.suffix_append _ _).isInfix

theorem sent_eq : s.sent = s.batch.bytes :=
  (ProduceRequestBody.holds_batch s.holds).bytes_below

/-- What is stored is the batch as it is expected at the offset. -/
theorem stored_eq : s.stored = (s.batch.storedAt s.offset).bytes := by
  rw [stored, sent_eq, RecordBatch.bytes_storedAt]
  rfl

end Sending

/-- A log that a broker keeps of what it was sent for a partition. -/
structure KeptLog where
  topic : String
  partition : Int32
  sendings : List Sending

namespace KeptLog

variable (log : KeptLog)

/-- What is expected of the log. -/
def expected : ExpectedLog :=
  { topic := log.topic
    partition := log.partition
    recordBatches := log.sendings.map fun s => s.batch.storedAt s.offset }

/-- What is stored, one batch after the other. -/
def contents : Bytes := log.sendings.flatMap Sending.stored

theorem contents_eq : log.contents = encodeLog log.expected.recordBatches := by
  have each : Sending.stored = fun s => (s.batch.storedAt s.offset).bytes :=
    funext Sending.stored_eq
  rw [contents, each, encodeLog, expected, List.flatMap_map]

theorem onDisk_iff {plan : LogDirectoryPlan} {files : Files.Tree} :
    log.expected.OnDisk plan files ↔ files.read (log.expected.path plan) = .ok log.contents := by
  rw [contents_eq, ExpectedLog.OnDisk]

end KeptLog

/-- Logs pass exactly if they hold what was sent. -/
theorem checkLogs_keptLogs {plan : LogDirectoryPlan} {logs : List KeptLog} {w : World} :
    (∃ w', (checkLogs plan (logs.map KeptLog.expected) : Tried InWorld Unit).run w =
      .ok (.ok ()) w') ↔
      ∀ log ∈ logs, w.files.read (log.expected.path plan) = .ok log.contents := by
  obtain ⟨v, w', run, passes⟩ := run_checkLogs plan (logs.map KeptLog.expected) w
  rw [List.forall_mem_map] at passes
  simp only [KeptLog.onDisk_iff] at passes
  rw [← passes, run]
  constructor
  · rintro ⟨w'', same⟩
    exact (EStateM.Result.ok.inj same).1
  · rintro rfl
    exact ⟨w', rfl⟩

/-! ### What the exam sends -/

/-- A request holds the batches of its deliveries, and no others. -/
theorem Exam.Delivery.mem_batches_request {ds : List Delivery} {correlationId : Int32}
    {b : RecordBatch} : b ∈ (request ds correlationId).body.batches ↔
      ∃ d ∈ ds, ∃ delivered ∈ d.batches, delivered.2 = b := by
  have none : b ∉ ProduceRequestBody.draft.body.batches := List.not_mem_nil
  refine (ProduceRequestBody.mem_batches_foldl (fun body d => ?_) ds _).trans (or_iff_right none)
  refine ProduceRequestBody.mem_batches_foldl (fun body delivered => ?_) d.batches body
  rw [ProduceRequestBody.mem_batches_addBatches, List.mem_singleton, eq_comm]

/-- **A faithful broker passes.**  An answer with the bytes of a partition's log, however it spells
its lengths and whatever it holds that nothing is expected of, passes with the batches which that
log is read as.  Logs pass exactly if they hold the batches as they were sent, but for the offsets
in the place of the first eight bytes of each.  What was sent is what stands in the message at the
place of the batch, and every batch that an exam delivers has such a place. -/
theorem faithful_broker_passes :
    (∀ (messages : List String) (correlationId : Int32) (topic : Uuid) (id : Int32)
      (reply : PartitionReply correlationId topic id
        (encodeLog (LogDirectory.messageBatches messages))),
      reply.payload.length < 0x80000000 → reply.Passes) ∧
    (∀ (plan : LogDirectoryPlan) (logs : List KeptLog) (w : World),
      (∃ w', (checkLogs plan (logs.map KeptLog.expected) : Tried InWorld Unit).run w =
        .ok (.ok ()) w') ↔
        ∀ log ∈ logs, w.files.read (log.expected.path plan) = .ok log.contents) ∧
    (∀ s : Sending, s.sent <:+: s.message) ∧
    ∀ (ds : List Exam.Delivery) (correlationId : Int32) (d : Exam.Delivery) (partition : Int32)
      (b : RecordBatch), d ∈ ds → (partition, b) ∈ d.batches →
      ∃ place, (Exam.Delivery.request ds correlationId).body.batch? place = some b :=
  ⟨fun _ _ _ _ reply => reply.passes_encodeLog, fun _ _ _ => checkLogs_keptLogs,
    Sending.sent_infix, fun _ _ d partition b hd hb => ProduceRequestBody.mem_batches_iff.1
      (Exam.Delivery.mem_batches_request.2 ⟨d, hd, (partition, b), hb, rfl⟩)⟩

/-- One message for one partition. -/
def greetingDelivery : Exam.Delivery := ⟨"greetings", [(0, Exam.producedBatch 0 ["hello"])]⟩

def greetingSending (offset : Int64) : Sending where
  time := 0
  messages := ["hello"]
  request := Exam.Delivery.request [greetingDelivery] 7
  place := ⟨0, 0, 0⟩
  holds := rfl
  message := frame (Exam.Delivery.request [greetingDelivery] 7).encoding.bytes
  encoded := by
    have short : (Exam.Delivery.request [greetingDelivery] 7).encoding.findSome?
        (fun l => l.value.overlong?) = none := by decide +kernel
    rw [Request.encode, Encoding.render, short]
    rfl
  offset

/-- The message was sent twice. -/
def greetingLog : KeptLog := ⟨"greetings", 0, [greetingSending 0, greetingSending 1]⟩

def greetingPlan : LogDirectoryPlan := { root := "/logs" }

/-- A world in which the log is on disk. -/
def greetingWorld : World :=
  { files :=
    { nodes := [(["logs"], .directory), (["logs", "greetings-0"], .directory),
        (["logs", "greetings-0", LogDirectory.logFileName], .file greetingLog.contents)] } }

def greetingReply :
    PartitionReply 7 Uuid.nil 0 (encodeLog (LogDirectory.messageBatches ["hello", "world"])) :=
  .plain 7 Uuid.nil 0 _ (by decide +kernel)

/-- The conditions of `faithful_broker_passes` hold of an answer, of a log on disk and of a
delivery. -/
theorem faithful_broker_passes_greeting :
    greetingReply.payload.length < 0x80000000 ∧ greetingReply.Passes ∧
    greetingWorld.files.read (greetingLog.expected.path greetingPlan) = .ok greetingLog.contents ∧
    (∃ w', (checkLogs greetingPlan [greetingLog.expected] : Tried InWorld Unit).run greetingWorld =
      .ok (.ok ()) w') ∧
    ∃ place, (Exam.Delivery.request [greetingDelivery] 7).body.batch? place =
      some (Exam.producedBatch 0 ["hello"]) := by
  obtain ⟨fetched, kept, -, delivered⟩ := faithful_broker_passes
  have short : greetingReply.payload.length < 0x80000000 := by decide +kernel
  have onDisk : greetingWorld.files.read (greetingLog.expected.path greetingPlan) =
      .ok greetingLog.contents := rfl
  exact ⟨short, fetched _ _ _ _ greetingReply short, onDisk,
    (kept greetingPlan [greetingLog] greetingWorld).2 (List.forall_mem_singleton.2 onDisk),
    delivered _ _ _ _ _ List.mem_cons_self List.mem_cons_self⟩

end BrokerExam
