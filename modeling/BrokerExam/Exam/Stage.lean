/-
BrokerExam/Exam/Stage.lean

The stages of the exam, in their order.  A stage has a title and a short name by
which it is called for, and sets one task.
-/
import BrokerExam.Exam.Describing
import BrokerExam.Exam.Fetching
import BrokerExam.Exam.Handshake
import BrokerExam.Exam.Producing

namespace BrokerExam.Exam

/-- What a stage has the broker do.  A task that is given two numbers draws one between them. -/
inductive Task
  | bind
  /-- Answer with the correlation id, this one or any. -/
  | correlate (id : Option Int32)
  | refuseVersion
  /-- Serve `ApiVersions`, and another API in a range of versions. -/
  | serve (more : List ApiKeyVersions)
  | serially (least most : Nat)
  | concurrently (least most : Nat)
  | describeUnknown
  | describePartitions (least most : Nat)
  | describeTopics (count : Nat)
  | fetchNothing
  | fetchUnknown
  | fetchMessages (least most : Nat)
  | produceToUnknownTopic
  | produceToUnknownPartition
  | produceTwice
  | produceRecords (least most : Nat)
  | producePartitions (count : Nat)
  | produceTopics (count : Nat)
  deriving DecidableEq, Repr

namespace Task

variable {m : Type → Type} [Monad m] [Journal m] [Clock m] [Network m] [Storage m] [Chance m]

/-- So many correlation ids, the number of which is drawn. -/
def correlationIds (least most : Nat) : Tried m (List Int32) := do
  let count ← numberBetween least most
  (List.range count).mapM fun _ => correlationId

def run (s : Setting) : Task → Tried m Unit
  | bind => Exam.bind s
  | correlate (some id) => checkCorrelationId s id
  | correlate none => do checkCorrelationId s (← correlationId)
  | refuseVersion => do Exam.refuseVersion s (← correlationId)
  | serve more => do serveVersions s (← correlationId) (ownVersions ++ more)
  | serially least most => do Exam.serially s (← correlationIds least most)
  | concurrently least most => do Exam.concurrently s (← correlationIds least most)
  | describeUnknown => Exam.describeUnknown s
  | describePartitions least most => do Exam.describePartitions s (← numberBetween least most)
  | describeTopics count => Exam.describeTopics s count
  | fetchNothing => Exam.fetchNothing s
  | fetchUnknown => Exam.fetchUnknown s
  | fetchMessages least most => do Exam.fetchMessages s (← numberBetween least most)
  | produceToUnknownTopic => Exam.produceToUnknownTopic s
  | produceToUnknownPartition => Exam.produceToUnknownPartition s
  | produceTwice => Exam.produceTwice s
  | produceRecords least most => do Exam.produceRecords s (← numberBetween least most)
  | producePartitions count => Exam.producePartitions s count
  | produceTopics count => Exam.produceTopics s count

end Task

structure Stage where
  /-- The name by which it is called for. -/
  slug : String
  title : String
  task : Task
  deriving DecidableEq, Repr

namespace Stage

/-- All stages, in order. -/
def all : List Stage :=
  [⟨"vi6", "Bind to a port", .bind⟩,
    ⟨"nv3", "Send Correlation ID", .correlate (some 7)⟩,
    ⟨"wa6", "Parse Correlation ID", .correlate none⟩,
    ⟨"nc5", "Parse API Version", .refuseVersion⟩,
    ⟨"pv1", "Handle APIVersions requests", .serve []⟩,
    ⟨"nh4", "Serial requests", .serially 2 4⟩,
    ⟨"sk0", "Concurrent requests", .concurrently 2 4⟩,
    ⟨"yk1", "Include DescribeTopicPartitions in APIVersions",
      .serve [⟨ApiKey.describeTopicPartitions.code, 0, 0⟩]⟩,
    ⟨"vt6", "List for an unknown topic", .describeUnknown⟩,
    ⟨"ea7", "List for a single partition", .describePartitions 1 1⟩,
    ⟨"ku4", "List for multiple partitions", .describePartitions 2 3⟩,
    ⟨"wq2", "List for multiple topics", .describeTopics 3⟩,
    ⟨"gs0", "Include Fetch in APIVersions", .serve [⟨ApiKey.fetch.code, 0, 16⟩]⟩,
    ⟨"dh6", "Fetch with no topics", .fetchNothing⟩,
    ⟨"hn6", "Fetch with an unknown topic", .fetchUnknown⟩,
    ⟨"cm4", "Fetch with an empty topic", .fetchMessages 0 0⟩,
    ⟨"eg2", "Fetch single message from disk", .fetchMessages 1 1⟩,
    ⟨"fd8", "Fetch multiple messages from disk", .fetchMessages 2 4⟩,
    ⟨"xz1", "Include Produce in APIVersions", .serve [⟨ApiKey.produce.code, 0, 11⟩]⟩,
    ⟨"zf2", "Produce to an invalid topic", .produceToUnknownTopic⟩,
    ⟨"gg1", "Produce to an invalid partition", .produceToUnknownPartition⟩,
    ⟨"ls8", "Produce a single record", .produceTwice⟩,
    ⟨"yd8", "Produce multiple records", .produceRecords 2 4⟩,
    ⟨"ct4", "Produce to multiple partitions", .producePartitions 3⟩,
    ⟨"ov0", "Produce to multiple topics", .produceTopics 2⟩]

/-- The stage of a name. -/
def find? (slug : String) : Option Stage := all.find? (·.slug = slug)

/-- No two stages have the same name. -/
theorem nodup_slugs : (all.map slug).Nodup := by decide

variable {m : Type → Type} [Monad m] [Journal m] [Clock m] [Network m] [Storage m] [Chance m]

/-- Runs a stage; all that it tells is below a span of its own. -/
def run (s : Setting) (stage : Stage) : Tried m Unit := do
  info s!"Running stage {stage.slug}: {stage.title}"
  Journal.within ("stage\x7bslug=\"" ++ stage.slug ++ "\"\x7d") (stage.task.run s)

end Stage
end BrokerExam.Exam
