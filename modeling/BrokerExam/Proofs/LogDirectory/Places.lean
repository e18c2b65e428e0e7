/-
BrokerExam/Proofs/LogDirectory/Places.lean

Where the files of a log directory are.  If the names of topics are those of
entries of a directory, and no partition has the directory of the cluster
metadata, then all files stand below the root, each in a place of its own
(`LogDirectoryPlan.nodup_places`), and so the log of every partition is left as it
was written (`LogDirectoryPlan.read_log`).
-/
import BrokerExam.Proofs.LogDirectory.Generate
import BrokerExam.Proofs.LogDirectory.Names

namespace BrokerExam.LogDirectoryPlan

open Files LogDirectory

/-- The names of topics are single names, and no partition has the directory of the cluster
metadata. -/
structure Separate (plan : LogDirectoryPlan) : Prop where
  single : ∀ t ∈ plan.topics, '/' ∉ t.name.toList
  reserved : ∀ t ∈ plan.topics, ∀ p ∈ t.partitions,
    partitionName t.name p.partitionId ≠ metadataDirectoryName

/-- The names of the directories of all partitions. -/
def partitionNames (plan : LogDirectoryPlan) : List String :=
  plan.topics.flatMap fun t => t.partitions.map fun p => partitionName t.name p.partitionId

/-- The files that are written in the root and in the directories there, in order. -/
def filesInRoot (plan : LogDirectoryPlan) : List String :=
  [join plan.root metaPropertiesFileName, join plan.root cleanShutdownFileName] ++
    plan.partitionNames.flatMap (fun name =>
      [join (join plan.root name) topicIdFileName, join (join plan.root name) logFileName]) ++
    [join (join plan.root metadataDirectoryName) logFileName,
      join (join plan.root metadataDirectoryName) topicIdFileName]

/-- The places of these files, from the root on. -/
def placesInRoot (plan : LogDirectoryPlan) : List Location :=
  [[metaPropertiesFileName], [cleanShutdownFileName]] ++
    plan.partitionNames.flatMap (fun name => [[name, topicIdFileName], [name, logFileName]]) ++
    [[metadataDirectoryName, logFileName], [metadataDirectoryName, topicIdFileName]]

variable {plan : LogDirectoryPlan}

theorem files_belowRoot (plan : LogDirectoryPlan) (madeAt : Int) :
    Addition.files (plan.belowRoot madeAt) = plan.filesInRoot := by
  have partitions : Addition.files (plan.topics.flatMap plan.topicAdditions) =
      plan.partitionNames.flatMap fun name =>
        [join (join plan.root name) topicIdFileName, join (join plan.root name) logFileName] := by
    rw [Addition.files, List.filterMap_flatMap, partitionNames, List.flatMap_assoc]
    congr 1
    funext t
    rw [topicAdditions, List.filterMap_flatMap, List.flatMap_map]
    rfl
  rw [belowRoot, Addition.files_append, Addition.files_append, partitions]
  rfl

theorem files_additions (plan : LogDirectoryPlan) (madeAt : Int) :
    Addition.files (plan.additions madeAt) = plan.serverPropertiesPath :: plan.filesInRoot := by
  have server : Addition.files plan.serverAdditions = [plan.serverPropertiesPath] := by
    rw [serverAdditions]
    cases parent? plan.serverPropertiesPath <;> rfl
  rw [additions, Addition.files_append, files_belowRoot]
  show Addition.files plan.serverAdditions ++ _ = _
  rw [server]
  rfl

theorem mem_partitionNames {name : String} : name ∈ plan.partitionNames ↔
    ∃ t ∈ plan.topics, ∃ p ∈ t.partitions, partitionName t.name p.partitionId = name := by
  rw [partitionNames, List.mem_flatMap]
  simp only [List.mem_map]

theorem plain_of_mem (valid : plan.Valid) (separate : plan.Separate) {name : String}
    (mem : name ∈ plan.partitionNames) : Plain name := by
  obtain ⟨t, ht, p, hp, rfl⟩ := mem_partitionNames.1 mem
  exact plain_partitionName (separate.single t ht) (valid.positive t ht p hp)

/-- **Every partition has a directory of its own.** -/
theorem nodup_partitionNames (valid : plan.Valid) : plan.partitionNames.Nodup := by
  rw [partitionNames, List.nodup_flatMap]
  constructor
  · intro t ht
    have ids := valid.partitions t ht
    rw [List.Nodup, List.pairwise_map] at ids ⊢
    apply ids.imp_of_mem
    intro p q hp hq ne same
    have named := valid.named t ht
    exact ne (partitionName_inj named named (valid.positive t ht p hp) (valid.positive t ht q hq)
      same).2
  · have names := valid.topics
    rw [List.Nodup, List.pairwise_map] at names
    apply names.imp_of_mem
    intro t u ht hu ne name inT inU
    obtain ⟨p, hp, rfl⟩ := List.mem_map.1 inT
    obtain ⟨q, hq, same⟩ := List.mem_map.1 inU
    exact ne (partitionName_inj (valid.named t ht) (valid.named u hu) (valid.positive t ht p hp)
      (valid.positive u hu q hq) same.symm).1

theorem ne_metadata_of_mem (separate : plan.Separate) {name : String}
    (mem : name ∈ plan.partitionNames) : name ≠ metadataDirectoryName := by
  obtain ⟨t, ht, p, hp, rfl⟩ := mem_partitionNames.1 mem
  exact separate.reserved t ht p hp

theorem head?_of_mem {name : String} {l : Location}
    (mem : l ∈ [[name, topicIdFileName], [name, logFileName]]) : l.head? = some name := by
  rw [List.mem_pair] at mem
  rcases mem with rfl | rfl <;> rfl

theorem nodup_placesInRoot (valid : plan.Valid) (separate : plan.Separate) :
    plan.placesInRoot.Nodup := by
  have inPartitions : (plan.partitionNames.flatMap fun name =>
      [[name, topicIdFileName], [name, logFileName]]).Nodup := by
    rw [List.nodup_flatMap]
    constructor
    · intro name _
      rw [List.nodup_cons, List.mem_singleton]
      refine ⟨fun same => ?_, List.nodup_singleton _⟩
      exact absurd (List.cons.inj (List.cons.inj same).2).1 (by decide)
    · -- the first name of a place says which partition it is for
      apply (nodup_partitionNames valid).imp
      intro name name' ne l mem mem'
      exact ne (Option.some.inj ((head?_of_mem mem).symm.trans (head?_of_mem mem')))
  have metadata : ∀ l ∈ ([[metadataDirectoryName, logFileName],
      [metadataDirectoryName, topicIdFileName]] : List Location),
      l.head? = some metadataDirectoryName := by decide
  rw [placesInRoot, List.nodup_append, List.nodup_append]
  refine ⟨⟨by decide, inPartitions, ?_⟩, by decide, ?_⟩
  · -- the one kind stands in the root, and the other one in a directory there
    intro l mem l' mem'
    obtain ⟨name, -, inName⟩ := List.mem_flatMap.1 mem'
    rw [List.mem_pair] at mem inName
    rcases mem with rfl | rfl <;> rcases inName with rfl | rfl <;> simp
  · -- the directory of the cluster metadata is none of the others
    intro l mem l' mem' same
    have head := metadata l' mem'
    rw [← same] at head
    rcases List.mem_append.1 mem with inRoot | inPartition
    · revert head
      rw [List.mem_pair] at inRoot
      rcases inRoot with rfl | rfl <;> decide
    · obtain ⟨name, there, inName⟩ := List.mem_flatMap.1 inPartition
      apply ne_metadata_of_mem separate there
      exact Option.some.inj ((head?_of_mem inName).symm.trans head)

theorem plain_metaProperties : Plain metaPropertiesFileName := ⟨by decide, by decide, by decide⟩

theorem plain_cleanShutdown : Plain cleanShutdownFileName := ⟨by decide, by decide, by decide⟩

theorem plain_metadataDirectory : Plain metadataDirectoryName := ⟨by decide, by decide, by decide⟩

theorem plain_topicIdFile : Plain topicIdFileName := ⟨by decide, by decide, by decide⟩

theorem plain_logFile : Plain logFileName := ⟨by decide, by decide, by decide⟩

theorem map_destination_filesInRoot (valid : plan.Valid) (separate : plan.Separate) (t : Tree) :
    plan.filesInRoot.map t.destination =
      plan.placesInRoot.map (t.destination plan.root ++ ·) := by
  have inDirectory {directory file : String} (h : Plain directory) (h' : Plain file) :
      t.destination (join (join plan.root directory) file) =
        t.destination plan.root ++ [directory, file] := by
    rw [Tree.destination_join h', Tree.destination_join h, List.append_assoc]
    rfl
  have inRoot : [t.destination (join plan.root metaPropertiesFileName),
      t.destination (join plan.root cleanShutdownFileName)] =
        [t.destination plan.root ++ [metaPropertiesFileName],
          t.destination plan.root ++ [cleanShutdownFileName]] := by
    rw [Tree.destination_join plain_metaProperties, Tree.destination_join plain_cleanShutdown]
  have inPartitions : (plan.partitionNames.flatMap fun name =>
      [t.destination (join (join plan.root name) topicIdFileName),
        t.destination (join (join plan.root name) logFileName)]) =
      plan.partitionNames.flatMap fun name =>
        [t.destination plan.root ++ [name, topicIdFileName],
          t.destination plan.root ++ [name, logFileName]] := by
    apply List.flatMap_congr
    intro name mem
    have plain := plain_of_mem valid separate mem
    rw [inDirectory plain plain_topicIdFile, inDirectory plain plain_logFile]
  have inMetadata : [t.destination (join (join plan.root metadataDirectoryName) logFileName),
      t.destination (join (join plan.root metadataDirectoryName) topicIdFileName)] =
        [t.destination plan.root ++ [metadataDirectoryName, logFileName],
          t.destination plan.root ++ [metadataDirectoryName, topicIdFileName]] := by
    rw [inDirectory plain_metadataDirectory plain_logFile,
      inDirectory plain_metadataDirectory plain_topicIdFile]
  rw [filesInRoot, placesInRoot, List.map_append, List.map_append, List.map_append,
    List.map_append, List.map_flatMap, List.map_flatMap]
  exact congrArg₂ (· ++ ·) (congrArg₂ (· ++ ·) inRoot inPartitions) inMetadata

/-- **Every file has a place of its own**, wherever the root is. -/
theorem pairwise_filesInRoot (valid : plan.Valid) (separate : plan.Separate) (t : Tree) :
    plan.filesInRoot.Pairwise fun p q => t.destination p ≠ t.destination q := by
  have nodup : (plan.filesInRoot.map t.destination).Nodup := by
    rw [map_destination_filesInRoot valid separate]
    exact (nodup_placesInRoot valid separate).map (List.append_right_injective _)
  exact List.pairwise_map.1 nodup

/-- **Every file is below the root.** -/
theorem below_of_mem_filesInRoot (valid : plan.Valid) (separate : plan.Separate) (t : Tree)
    {path : String} (mem : path ∈ plan.filesInRoot) :
    Below (t.destination plan.root) (t.destination path) := by
  have placed := List.mem_map_of_mem (f := t.destination) mem
  rw [map_destination_filesInRoot valid separate] at placed
  obtain ⟨l, there, here⟩ := List.mem_map.1 placed
  rw [← here]
  refine ⟨List.prefix_append _ _, fun same => ?_⟩
  rw [List.append_right_eq_self.1 same] at there
  simp [placesInRoot] at there

/-- **The log of every partition** is left as it was written. -/
theorem read_log (valid : plan.Valid) (separate : plan.Separate) {cleared after : Tree}
    {madeAt : Int} (all : cleared.extend (plan.additions madeAt) = .ok after) {t : PlannedTopic}
    (ht : t ∈ plan.topics) {p : PlannedPartition} (hp : p ∈ t.partitions) :
    after.read (join (plan.partitionDirectory t.name p.partitionId) logFileName) =
      .ok (encodeLog (messageBatches p.logs)) := by
  have mem : .file (join (plan.partitionDirectory t.name p.partitionId) logFileName)
      (encodeLog (messageBatches p.logs)) ∈ plan.belowRoot madeAt := by
    rw [belowRoot, List.mem_append, List.mem_append, List.mem_flatMap]
    refine .inl (.inr ⟨t, ht, List.mem_flatMap.2 ⟨p, hp, ?_⟩⟩)
    exact List.mem_cons_of_mem _ (List.mem_cons_of_mem _ List.mem_cons_self)
  rw [additions, Tree.extend_append] at all
  obtain ⟨t₁, -, rest⟩ := Except.bind_eq_ok_iff.1 all
  apply Tree.read_of_extend rest ?_ mem
  rw [files_belowRoot]
  exact pairwise_filesInRoot valid separate t₁

/-- **The log of the cluster metadata** is left as it was written, whatever the names are: it comes
last. -/
theorem read_metadataLog (plan : LogDirectoryPlan) {cleared after : Tree} {madeAt : Int}
    (all : cleared.extend (plan.additions madeAt) = .ok after) :
    after.read (join (join plan.root metadataDirectoryName) logFileName) =
      .ok (encodeLog (metadataBatches plan.topics)) := by
  rw [additions, belowRoot, ← List.append_assoc, Tree.extend_append] at all
  obtain ⟨t, -, rest⟩ := Except.bind_eq_ok_iff.1 all
  apply Tree.read_of_extend rest ?_ (List.mem_cons_of_mem _ List.mem_cons_self)
  show [_, _].Pairwise _
  rw [List.pairwise_pair, Tree.destination_join plain_logFile,
    Tree.destination_join plain_topicIdFile]
  intro same
  exact absurd (List.append_cancel_left same) (by decide)

/-! ### An example -/

/-- A plan with names that hold dashes and digits. -/
def samplePlan : LogDirectoryPlan where
  root := "logs"
  serverPropertiesPath := "conf/server.properties"
  topics := [
    ⟨"events", ⟨1⟩, [⟨0, ["a", "\x00é"]⟩, ⟨1, []⟩]⟩,
    ⟨"events-1", ⟨2⟩, [⟨0, ["b"]⟩, ⟨10, [""]⟩]⟩]

theorem check_samplePlan : samplePlan.check = .ok () := by decide

theorem separate_samplePlan : samplePlan.Separate := ⟨by decide, by decide +kernel⟩

end BrokerExam.LogDirectoryPlan
