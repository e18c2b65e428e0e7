/-
BrokerExam/Proofs/LogDirectory/Written.lean

Making a log directory keeps to the root and writes no file twice, if the names
of the plan are separate (`generate_keptToRoot`).  The check of a plan does not
ask for that: a topic can have the name that the cluster metadata goes by, and
then the account tells of batches that are overwritten
(`not_generate_leavesReported`).
-/
import BrokerExam.Proofs.Batch.Stream
import BrokerExam.Proofs.LogDirectory.Places

namespace BrokerExam.LogDirectory

open Files Rehearsal LogDirectoryPlan

/-- How making a log directory ended in a world, with the files on record that it wrote. -/
structure KeptToRoot (plan : LogDirectoryPlan) (w : World)
    (v : Except Failure GeneratedLogDirectory) (w' : World) (written : List String) : Prop where
  /-- It ran like this with a record, -/
  recorded : (generate plan : Tried Recording GeneratedLogDirectory).run [] w = .ok (v, written) w'
  /-- and like this without one. -/
  plain : (generate plan : Tried InWorld GeneratedLogDirectory).run w = .ok v w'
  /-- It wrote the broker's configuration and then the files in the root, or a part of them. -/
  ordered : written <+: plan.serverPropertiesPath :: plan.filesInRoot
  /-- The files in the root are below the root, -/
  below : ∀ path ∈ plan.filesInRoot,
    Below (w.files.destination plan.root) (w.files.destination path)
  /-- and no two of them have the same place. -/
  apart : plan.filesInRoot.Pairwise fun p q => w.files.destination p ≠ w.files.destination q
  /-- The configuration has another one, if it is not below the root itself. -/
  elsewhere :
    ¬ Below (w.files.destination plan.root) (w.files.destination plan.serverPropertiesPath) →
    ∀ path ∈ plan.filesInRoot,
      w.files.destination path ≠ w.files.destination plan.serverPropertiesPath
  /-- If it succeeded, it wrote all files, -/
  whole : ∀ made, v = .ok made → written = plan.serverPropertiesPath :: plan.filesInRoot
  /-- the account tells of the partitions of the plan, -/
  account : ∀ made, v = .ok made → made = plan.topics.map PlannedTopic.made
  /-- and the batches that it tells of are those left in the logs. -/
  reported : ∀ made, v = .ok made → ∀ t ∈ made, ∀ p ∈ t.partitions,
    w'.files.read (join (plan.partitionDirectory t.name p.partitionId) logFileName) =
      .ok (encodeLog p.recordBatches)

/-- **Making a log directory keeps to its root and writes no file twice**, whatever there was
before, and so leaves the batches that it reports. -/
theorem generate_keptToRoot (plan : LogDirectoryPlan) (checked : plan.check = .ok ())
    (separate : plan.Separate) (w : World) :
    ∃ v w' written, KeptToRoot plan w v w' written := by
  have valid := check_eq_ok_iff.1 checked
  obtain ⟨v, w', written, plain, recorded, played⟩ := run_generate checked w
  rw [files_additions] at played
  have below (path : String) (mem : path ∈ plan.filesInRoot) :=
    below_of_mem_filesInRoot valid separate w.files mem
  have apart := pairwise_filesInRoot valid separate w.files
  have elsewhere (outside : ¬ Below (w.files.destination plan.root)
      (w.files.destination plan.serverPropertiesPath)) (path : String)
      (mem : path ∈ plan.filesInRoot) :
      w.files.destination path ≠ w.files.destination plan.serverPropertiesPath :=
    fun same => outside (same ▸ below path mem)
  refine ⟨v, w', written, ?_⟩
  cases played with
  | failed failure _ some =>
    exact ⟨recorded, plain, some, below, apart, elsewhere, (fun _ h => by cases h),
      (fun _ h => by cases h), fun _ h => by cases h⟩
  | whole all =>
    obtain ⟨t₀, -, filled⟩ := Except.bind_eq_ok_iff.1 all
    refine ⟨recorded, plain, List.prefix_refl _, below, apart, elsewhere, fun _ _ => rfl,
      fun _ h => (Except.ok.inj h).symm, ?_⟩
    intro made h t ht p hp
    obtain rfl := Except.ok.inj h
    obtain ⟨topic, inPlan, rfl⟩ := List.mem_map.1 ht
    obtain ⟨partition, inTopic, rfl⟩ := List.mem_map.1 hp
    exact read_log valid separate filled inPlan inTopic

/-- In an empty directory all of it succeeds for the example. -/
theorem generate_keptToRoot_sample :
    samplePlan.check = .ok () ∧ samplePlan.Separate ∧
      ∃ made w' written, KeptToRoot samplePlan {} (.ok made) w' written := by
  refine ⟨check_samplePlan, separate_samplePlan, ?_⟩
  obtain ⟨v, w', written, kept⟩ :=
    generate_keptToRoot samplePlan check_samplePlan separate_samplePlan {}
  obtain ⟨_, plain, -⟩ := generate_succeeds check_samplePlan {} (by decide +kernel)
  obtain ⟨rfl, rfl⟩ := EStateM.Result.ok.inj (plain.symm.trans kept.plain)
  exact ⟨_, _, written, kept⟩

/-! ### A name that is not separate -/

/-- A plan with the topic that the cluster metadata goes by. -/
def reservedPlan : LogDirectoryPlan where
  root := "logs"
  serverPropertiesPath := "server.properties"
  topics := [⟨"__cluster_metadata", ⟨7⟩, [⟨0, ["a"]⟩]⟩]

/-- **The check is not enough.**  A topic of this name is made, and what the account tells of its
partition is not what its log holds, since the cluster metadata is written there afterwards. -/
theorem not_generate_leavesReported :
    ¬ ∀ plan : LogDirectoryPlan, plan.check = .ok () → ∀ (w w' : World) made,
      (generate plan : Tried InWorld GeneratedLogDirectory).run w = .ok (.ok made) w' →
      ∀ t ∈ made, ∀ p ∈ t.partitions,
        w'.files.read (join (plan.partitionDirectory t.name p.partitionId) logFileName) =
          .ok (encodeLog p.recordBatches) := by
  intro claim
  have checked : reservedPlan.check = .ok () := by decide
  obtain ⟨w', plain, all⟩ := generate_succeeds checked {} (by decide +kernel)
  obtain ⟨t, -, filled⟩ := Except.bind_eq_ok_iff.1 all
  have held := read_metadataLog reservedPlan filled
  have reported := claim reservedPlan checked {} w' _ plain _ List.mem_cons_self _
    List.mem_cons_self
  -- both are about the log of one directory
  have same : encodeLog (metadataBatches reservedPlan.topics) = encodeLog (messageBatches ["a"]) :=
    Except.ok.inj (held.symm.trans reported)
  have metadata : ∀ b ∈ metadataBatches reservedPlan.topics, b.Fits := by decide +kernel
  have messages : ∀ b ∈ messageBatches ["a"], b.Fits := by decide +kernel
  have read := decodeLog_encodeLog metadata
  rw [same, decodeLog_encodeLog messages] at read
  have count := congrArg List.length (Except.ok.inj read)
  rw [List.length_map, List.length_map] at count
  exact absurd count (by decide +kernel)

end BrokerExam.LogDirectory
