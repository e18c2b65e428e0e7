/-
BrokerExam/Proofs/LogDirectory/Generate.lean

What making a log directory does.  The root is removed if it is there, and then
a list of directories and files is added that the plan determines
(`LogDirectoryPlan.additions`); what the account says of each partition is what
stands in the list for its log.

Main result: `run_generate`.
-/
import BrokerExam.LogDirectory.Write
import BrokerExam.Proofs.LogDirectory.Recording

namespace BrokerExam

open Files Rehearsal LogDirectory

/-! ### What is added -/

/-- The account of a partition that was made as planned. -/
def PlannedPartition.made (p : PlannedPartition) : GeneratedPartition :=
  ⟨p.partitionId, messageBatches p.logs⟩

/-- The account of a topic that was made as planned. -/
def PlannedTopic.made (t : PlannedTopic) : GeneratedTopic :=
  ⟨t.name, t.uuid, t.partitions.map PlannedPartition.made⟩

namespace LogDirectory

/-- The directory of a partition with its two files. -/
def partitionAdditions (directory : String) (topic : Uuid) (p : PlannedPartition) :
    List Addition :=
  [.directory directory,
    .file (join directory topicIdFileName) (Utf8.encode (partitionMetadata topic)),
    .file (join directory logFileName) (encodeLog (messageBatches p.logs))]

def metadataAdditions (directory : String) (topics : List PlannedTopic) : List Addition :=
  [.directory directory,
    .file (join directory logFileName) (encodeLog (metadataBatches topics)),
    .file (join directory topicIdFileName) (Utf8.encode (topicIdFile metadataTopicId))]

end LogDirectory

namespace LogDirectoryPlan

/-- The directory of the broker's configuration, if its path names one, and the configuration. -/
def serverAdditions (plan : LogDirectoryPlan) : List Addition :=
  ((parent? plan.serverPropertiesPath).map Addition.directory).toList ++
    [.file plan.serverPropertiesPath (Utf8.encode (serverProperties plan.root))]

def topicAdditions (plan : LogDirectoryPlan) (t : PlannedTopic) : List Addition :=
  t.partitions.flatMap fun p =>
    partitionAdditions (plan.partitionDirectory t.name p.partitionId) t.uuid p

/-- What is added below the root, in order. -/
def belowRoot (plan : LogDirectoryPlan) (madeAt : Int) : List Addition :=
  [.file (join plan.root metaPropertiesFileName) (Utf8.encode (metaProperties madeAt)),
    .file (join plan.root cleanShutdownFileName) (Utf8.encode cleanShutdown)] ++
    plan.topics.flatMap plan.topicAdditions ++
    metadataAdditions (join plan.root metadataDirectoryName) plan.topics

/-- All that is added, in order. -/
def additions (plan : LogDirectoryPlan) (madeAt : Int) : List Addition :=
  .directory plan.root :: plan.serverAdditions ++ plan.belowRoot madeAt

end LogDirectoryPlan

/-! ### The parts -/

namespace LogDirectory

variable {m : Type → Type} [Monad m] [Journal m] [Storage m] [Clock m]

/-- Making a log directory, from where the root is cleared. -/
def fill (plan : LogDirectoryPlan) : Tried m GeneratedLogDirectory := do
  attempt (.createLogDirectory plan.root) (Storage.createPath plan.root)
  writeServerProperties plan
  writeMetaProperties plan.root
  writeCleanShutdown plan.root
  let topics ← plan.topics.mapM (writeTopic plan)
  writeMetadataPartition (join plan.root metadataDirectoryName) plan.topics
  info s!"Generated log directory at {plan.root}"
  return topics

theorem plays_writePartition (directory : String) (topic : Uuid) (p : PlannedPartition) :
    Plays (writePartition directory topic p) (writePartition directory topic p) p.made
      fun _ => partitionAdditions directory topic p :=
  (Plays.createPath _ _).andThen <| (Plays.writeFile _ _ _).andThen <|
    (Plays.writeFile _ _ _).andThen <| (Plays.tell _).andThen <| Plays.pure _

theorem plays_writeTopic (plan : LogDirectoryPlan) (t : PlannedTopic) :
    Plays (writeTopic plan t) (writeTopic plan t) t.made fun _ => plan.topicAdditions t := by
  have partitions := Plays.mapM (l := t.partitions)
    fun p _ => plays_writePartition (plan.partitionDirectory t.name p.partitionId) t.uuid p
  have whole : Plays (writeTopic plan t) (writeTopic plan t) t.made
      fun _ => plan.topicAdditions t ++ ([] ++ []) :=
    partitions.bind <| (Plays.tell _).andThen <| Plays.pure _
  simpa only [List.append_nil] using whole

theorem plays_writeText (what : String → Attempt) (path text entry : String) :
    Plays (do writeText what path text; debug entry) (do writeText what path text; debug entry) ()
      fun _ => [.file path (Utf8.encode text)] :=
  (Plays.writeFile _ _ _).andThen <| Plays.tell _

theorem plays_writeServerProperties (plan : LogDirectoryPlan) :
    Plays (writeServerProperties plan) (writeServerProperties plan) ()
      fun _ => plan.serverAdditions := by
  have file := plays_writeText .writeServerProperties plan.serverPropertiesPath
    (serverProperties plan.root) s!"Wrote server properties to {plan.serverPropertiesPath}"
  unfold writeServerProperties LogDirectoryPlan.serverAdditions
  dsimp only
  cases parent? plan.serverPropertiesPath with
  | none => exact file
  | some parent => exact (Plays.createPath _ _).andThen file

theorem plays_writeMetaProperties (root : String) :
    Plays (writeMetaProperties root) (writeMetaProperties root) ()
      fun madeAt => [.file (join root metaPropertiesFileName)
        (Utf8.encode (metaProperties madeAt))] :=
  Plays.now fun _ => plays_writeText _ _ _ _

theorem plays_writeCleanShutdown (root : String) :
    Plays (writeCleanShutdown root) (writeCleanShutdown root) ()
      fun _ => [.file (join root cleanShutdownFileName) (Utf8.encode cleanShutdown)] :=
  plays_writeText _ _ _ _

theorem plays_writeMetadataPartition (directory : String) (topics : List PlannedTopic) :
    Plays (writeMetadataPartition directory topics) (writeMetadataPartition directory topics) ()
      fun _ => metadataAdditions directory topics :=
  (Plays.createPath _ _).andThen <| (Plays.writeFile _ _ _).andThen <|
    (Plays.writeFile _ _ _).andThen <| Plays.tell _

/-- **Filling the root** adds what the plan says, and gives the account of it. -/
theorem plays_fill (plan : LogDirectoryPlan) :
    Plays (fill plan) (fill plan) (plan.topics.map PlannedTopic.made)
      fun madeAt => plan.additions madeAt := by
  have topics := Plays.mapM (l := plan.topics) fun t _ => plays_writeTopic plan t
  have whole : Plays (fill plan) (fill plan) (plan.topics.map PlannedTopic.made) fun madeAt =>
      [.directory plan.root] ++ (plan.serverAdditions ++
        ([.file (join plan.root metaPropertiesFileName) (Utf8.encode (metaProperties madeAt))] ++
          ([.file (join plan.root cleanShutdownFileName) (Utf8.encode cleanShutdown)] ++
            (plan.topics.flatMap plan.topicAdditions ++
              (metadataAdditions (join plan.root metadataDirectoryName) plan.topics ++
                ([] ++ [])))))) :=
    (Plays.createPath _ _).andThen <| (plays_writeServerProperties plan).andThen <|
      (plays_writeMetaProperties _).andThen <| (plays_writeCleanShutdown _).andThen <|
      topics.bind <| (plays_writeMetadataPartition _ _).andThen <| (Plays.tell _).andThen <|
      Plays.pure _
  simpa only [LogDirectoryPlan.additions, LogDirectoryPlan.belowRoot, List.append_nil,
    List.append_assoc, List.cons_append, List.nil_append] using whole

/-! ### All of it -/

theorem generate_eq {plan : LogDirectoryPlan} (checked : plan.check = .ok ()) :
    (generate plan : Tried m GeneratedLogDirectory) = (do
      if ← Storage.pathExists plan.root then
        attempt (.removeLogDirectory plan.root) (Storage.removeDirectory plan.root)
      fill plan) := by
  rw [generate, checked]
  rfl

/-- The files without the root, if it is there. -/
def cleared (t : Tree) (root : String) : Except SystemError Tree :=
  if t.exists root then t.removeDirectory root else .ok t

/-- The files with the log directory in place of what was there. -/
def remade (plan : LogDirectoryPlan) (madeAt : Int) (t : Tree) : Except SystemError Tree := do
  (← cleared t plan.root).extend (plan.additions madeAt)

/-- **Making a log directory** clears the root and adds what the plan says, or fails on the way; the
files that are written are put on record, and nothing is different for that. -/
theorem run_generate {plan : LogDirectoryPlan} (checked : plan.check = .ok ()) (w : World) :
    ∃ v w' written,
      (generate plan : Tried InWorld _).run w = .ok v w' ∧
      (generate plan : Tried Recording _).run [] w = .ok (v, written) w' ∧
      Played (plan.topics.map PlannedTopic.made) (Addition.files (plan.additions w.time))
        (remade plan w.time w.files) w'.files v written := by
  rw [generate_eq checked, generate_eq checked, remade, cleared]
  -- asking whether the root is there changes nothing and is not put on record
  have asked : (Storage.pathExists plan.root : Tried InWorld Bool).run w =
      .ok (.ok (w.files.exists plan.root)) w := rfl
  have asked' : (Storage.pathExists plan.root : Tried Recording Bool).run [] w =
      .ok (.ok (w.files.exists plan.root), []) w := rfl
  rw [run_bind_of_ok asked, recorded_bind asked']
  cases w.files.exists plan.root with
  | false =>
    obtain ⟨v, w', written, plain, recorded, -, played⟩ := plays_fill plan w []
    exact ⟨v, w', written, plain, recorded, played⟩
  | true =>
    rw [if_pos rfl]
    cases removed : w.files.removeDirectory plan.root with
    | error e =>
      have changed := change_error (c := (·.removeDirectory plan.root)) removed
      have plain := run_attempt (.removeLogDirectory plan.root) changed
      have recorded := recorded_attempt (.removeLogDirectory plan.root)
        (recorded_removeDirectory [] changed)
      exact ⟨_, w, [], run_bind_of_error plain, recorded_bind_error recorded,
        .failed _ rfl List.nil_prefix⟩
    | ok t =>
      have changed := change_ok (c := (·.removeDirectory plan.root)) removed
      have plain := run_attempt (.removeLogDirectory plan.root) changed
      have recorded := recorded_attempt (.removeLogDirectory plan.root)
        (recorded_removeDirectory [] changed)
      obtain ⟨v, w', written, rest, rest', -, played⟩ := plays_fill plan { w with files := t } []
      exact ⟨v, w', written, (run_bind_of_ok plain).trans rest,
        (recorded_bind recorded).trans rest', played⟩

/-- It succeeds if the files can be changed like that. -/
theorem generate_succeeds {plan : LogDirectoryPlan} (checked : plan.check = .ok ()) (w : World)
    (fine : (remade plan w.time w.files).isOk) :
    ∃ w', (generate plan : Tried InWorld _).run w =
        .ok (.ok (plan.topics.map PlannedTopic.made)) w' ∧
      remade plan w.time w.files = .ok w'.files := by
  obtain ⟨v, w', written, plain, -, played⟩ := run_generate checked w
  cases played with
  | whole all => exact ⟨w', plain, all⟩
  | failed failure stopped =>
    rw [stopped] at fine
    cases fine

/-- What there is if it succeeded. -/
theorem ok_of_generate {plan : LogDirectoryPlan} {w w' : World} {made : GeneratedLogDirectory}
    (run : (generate plan : Tried InWorld _).run w = .ok (.ok made) w') :
    plan.check = .ok () ∧ made = plan.topics.map PlannedTopic.made ∧
      remade plan w.time w.files = .ok w'.files := by
  cases checked : plan.check with
  | error e =>
    rw [generate, checked] at run
    cases run
  | ok u =>
    obtain ⟨v, _, _, plain, -, played⟩ := run_generate checked w
    obtain ⟨rfl, rfl⟩ := EStateM.Result.ok.inj (plain.symm.trans run)
    cases played with
    | whole all => exact ⟨rfl, rfl, all⟩

end LogDirectory
end BrokerExam
