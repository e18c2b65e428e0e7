/-
BrokerExam/Proofs/LogDirectory/ReadBack.lean

Reading a log directory back that was made.  Whatever was in the root before, and
in whatever order its entries come, what is read are the partitions of the plan
with their batches, which are those that the account tells of
(`generate_readBack`), if the root can be cleared and no path leads through it.
Otherwise something else can be left in it (`not_generate_readBack`).
-/
import BrokerExam.Proofs.Batch.Stream
import BrokerExam.Proofs.LogDirectory.Entries
import BrokerExam.Proofs.LogDirectory.Inside

namespace BrokerExam.LogDirectory

open Files Rehearsal LogDirectoryPlan

/-! ### The batches of messages -/

section Messages

variable {messages : List String} {message : String} {i : Nat}

/-- The batches are written as they are read. -/
theorem map_normalized_messageBatches (messages : List String) :
    (messageBatches messages).map RecordBatch.normalized = messageBatches messages := by
  refine (List.map_congr_left fun b mem => ?_).trans (List.map_id _)
  obtain ⟨i, _, rfl⟩ := List.mem_mapIdx.1 mem
  exact RecordBatch.normalized_normalized _

theorem getElem?_messageBatches (here : messages[i]? = some message) :
    (messageBatches messages)[i]? = some (messageBatch i message) := by
  rw [messageBatches, List.getElem?_mapIdx, here]
  rfl

/-- A message is the value of the one record in its batch. -/
theorem records_messageBatch (i : Nat) (message : String) :
    ∃ r, (messageBatch i message).records = [r] ∧ r.value = some (Utf8.encode message) :=
  ⟨_, rfl, rfl⟩

end Messages

/-! ### What is found in the root -/

/-- The plan has the partition, with messages in these batches. -/
def Planned (plan : LogDirectoryPlan) (key : String × Int32) (batches : List RecordBatch) : Prop :=
  ∃ t ∈ plan.topics, ∃ p ∈ t.partitions,
    key = (t.name, p.partitionId) ∧ batches = messageBatches p.logs

/-- A valid plan has every partition once. -/
theorem Planned.unique {plan : LogDirectoryPlan} (valid : plan.Valid) {key : String × Int32}
    {batches batches' : List RecordBatch} (h : Planned plan key batches)
    (h' : Planned plan key batches') : batches = batches' := by
  obtain ⟨t, ht, p, hp, rfl, rfl⟩ := h
  obtain ⟨t', ht', p', hp', same, rfl⟩ := h'
  obtain ⟨topic, id⟩ := Prod.mk.inj same
  obtain rfl := List.inj_on_of_nodup_map valid.topics ht ht' topic
  obtain rfl := List.inj_on_of_nodup_map (valid.partitions t ht) hp hp' id
  rfl

section Root

variable {plan : LogDirectoryPlan} {before after : Tree} {madeAt : Int}
  (valid : plan.Valid) (separate : plan.Separate) (sound : before.Sound)
  (clearable : before.Clearable plan.root)
  (all : remade plan madeAt before = .ok after)

include all

include separate valid in
/-- The directory of a partition is found with the batches of its messages. -/
theorem found_partition
    (fits : ∀ t ∈ plan.topics, ∀ p ∈ t.partitions, ∀ b ∈ messageBatches p.logs, b.Fits)
    {t : PlannedTopic} (ht : t ∈ plan.topics) {p : PlannedPartition} (hp : p ∈ t.partitions) :
    Found after plan.root (entryOf (partitionName t.name p.partitionId, .directory))
      (t.name, p.partitionId) (messageBatches p.logs) where
  directory := rfl
  other := separate.reserved t ht p hp
  named := partitionOfName?_partitionName (valid.named t ht) (valid.positive t ht p hp)
  log := by
    obtain ⟨t₀, -, filled⟩ := Except.bind_eq_ok_iff.1 all
    refine ⟨_, read_log valid separate filled ht hp, ?_⟩
    rw [decodeLog_encodeLog (fits t ht p hp), map_normalized_messageBatches]

include sound clearable

/-- The root can be listed, and what is listed is what stands in it. -/
theorem list_root : ∃ nodes, after.list plan.root = .ok nodes ∧
    ∀ name n, (name, n) ∈ nodes ↔
      after.node? (before.destination plan.root ++ [name]) = some n := by
  obtain ⟨t₀, clear, filled⟩ := Except.bind_eq_ok_iff.1 all
  have grown := Tree.extends_of_extend filled
  have same : after.destination plan.root = before.destination plan.root :=
    Tree.destination_congr (grown.current.trans (Tree.current_cleared clear)) _
  obtain ⟨located, there⟩ := locate_root clearable.some filled
  refine ⟨after.entries (before.destination plan.root), ?_, fun name n => ?_⟩
  · rw [Tree.list, Tree.find_directory located there, ← same]
    rfl
  · exact Tree.mem_entries (grown.sound (Tree.sound_cleared sound clear))

variable (outside : before.Avoids plan.serverPropertiesPath (before.destination plan.root))

include valid separate outside

/-- A node in the root is passed over, or is the directory of a partition. -/
theorem skipped_or_partition {name : String} {n : Node}
    (there : after.node? (before.destination plan.root ++ [name]) = some n) :
    Skipped (entryOf (name, n)) ∨ n = .directory ∧ ∃ t ∈ plan.topics, ∃ p ∈ t.partitions,
      partitionName t.name p.partitionId = name := by
  cases n with
  | file bs => exact .inl (.inl rfl)
  | directory =>
    rcases (directory_iff valid separate sound clearable outside all).1 there with known | metadata
    · exact .inr ⟨rfl, mem_partitionNames.1 known⟩
    · exact .inl (.inr metadata)

/-- **What is read of a root that was made** are the partitions of the plan. -/
theorem run_readListed_made {w : World} (here : w.files = after)
    {arrange : List DirectoryEntry → List DirectoryEntry}
    (fits : ∀ t ∈ plan.topics, ∀ p ∈ t.partitions, ∀ b ∈ messageBatches p.logs, b.Fits)
    (permutes : ∀ es, (arrange es).Perm es) :
    ∃ logs, (readListed arrange plan.root).run w = .ok (.ok logs) w ∧ logs.Ordered ∧
      ∀ k bs, (k, bs) ∈ logs ↔ Planned plan k bs := by
  subst here
  obtain ⟨nodes, list, mem_nodes⟩ := list_root sound clearable all
  have held {t : PlannedTopic} (ht : t ∈ plan.topics) {p : PlannedPartition}
      (hp : p ∈ t.partitions) := found_partition valid separate all fits ht hp
  have cases_of_mem {name : String} {n : Node} (mem : (name, n) ∈ nodes) :=
    skipped_or_partition valid separate sound clearable all outside ((mem_nodes name n).1 mem)
  have each : ∀ e ∈ nodes, Skipped (entryOf e) ∨
      ∃ k bs, Found w.files plan.root (entryOf e) k bs ∧ Planned plan k bs := by
    rintro ⟨name, n⟩ mem
    rcases cases_of_mem mem with skipped | ⟨rfl, t, ht, p, hp, rfl⟩
    · exact .inl skipped
    · exact .inr ⟨_, _, held ht hp, t, ht, p, hp, rfl, rfl⟩
  obtain ⟨logs, read, ordered, found⟩ :=
    run_readListed (R := Planned plan) list permutes (Planned.unique valid) each
  refine ⟨logs, read, ordered, fun k bs => ?_⟩
  rw [found]
  constructor
  · -- nothing else is found: all other nodes are passed over
    rintro ⟨⟨name, n⟩, mem, here⟩
    rcases cases_of_mem mem with skipped | ⟨rfl, t, ht, p, hp, rfl⟩
    · exact absurd skipped here.not_skipped
    · exact ⟨t, ht, p, hp, (held ht hp).unique here⟩
  · -- and everything is found: its directory stands in the root
    rintro ⟨t, ht, p, hp, rfl, rfl⟩
    have inRoot := (directory_iff valid separate sound clearable outside all).2
      (.inl (mem_partitionNames.2 ⟨t, ht, p, hp, rfl⟩))
    exact ⟨_, (mem_nodes _ _).2 inRoot, held ht hp⟩

end Root

/-! ### Reading back -/

/-- What was made as planned, and what was read of it. -/
structure ReadBack (plan : LogDirectoryPlan) (made : GeneratedLogDirectory) (logs : PartitionLogs) :
    Prop where
  /-- Every partition is there once, in its place, -/
  ordered : logs.Ordered
  /-- the partitions are those of the plan, with the batches of their messages, and no others, -/
  planned : ∀ key batches, (key, batches) ∈ logs ↔ ∃ t ∈ plan.topics, ∃ p ∈ t.partitions,
    key = (t.name, p.partitionId) ∧ batches = messageBatches p.logs
  /-- and they are those of the account, with the batches that it tells of. -/
  reported : ∀ key batches, (key, batches) ∈ logs ↔ ∃ t ∈ made, ∃ p ∈ t.partitions,
    key = (t.name, p.partitionId) ∧ batches = p.recordBatches
  /-- The account has the topics and the partitions in the order of the plan. -/
  account : made = plan.topics.map fun t =>
    ⟨t.name, t.uuid, t.partitions.map fun p => ⟨p.partitionId, messageBatches p.logs⟩⟩
  /-- There are as many batches as messages, -/
  counted : ∀ t ∈ plan.topics, ∀ p ∈ t.partitions,
    (messageBatches p.logs).length = p.logs.length
  /-- and each message is the one record of the batch at its offset. -/
  messages : ∀ t ∈ plan.topics, ∀ p ∈ t.partitions, ∀ i message, p.logs[i]? = some message →
    ∃ b r, (messageBatches p.logs)[i]? = some b ∧ b.baseOffset = Int64.ofNat i ∧
      b.records = [r] ∧ r.value = some (Utf8.encode message)

section Main

variable {plan : LogDirectoryPlan} {w w' : World} {made : GeneratedLogDirectory}
  {arrange : List DirectoryEntry → List DirectoryEntry}

/-- **A log directory that was made reads back exactly**, whatever was in the root before and in
whatever order it is listed.

The names of topics are single names, no partition has the directory of the cluster metadata, and
the broker's configuration is outside of the root, which its path does not lead through either.  The
batches fit their lengths of 32 bits.  The path of the root is not empty, and if it leads back
somewhere, that is not out of the root, and what it leads back from is there, or nothing is in the
root. -/
theorem generate_readBack (separate : plan.Separate)
    (outside : w.files.Avoids plan.serverPropertiesPath (w.files.destination plan.root))
    (clearable : w.files.Clearable plan.root) (sound : w.files.Sound)
    (fits : ∀ t ∈ plan.topics, ∀ p ∈ t.partitions, ∀ b ∈ messageBatches p.logs, b.Fits)
    (permutes : ∀ es, (arrange es).Perm es)
    (run : (generate plan : Tried InWorld GeneratedLogDirectory).run w = .ok (.ok made) w') :
    ∃ logs, (readListed arrange plan.root).run w' = .ok (.ok logs) w' ∧
      ReadBack plan made logs := by
  obtain ⟨checked, rfl, all⟩ := ok_of_generate run
  have valid := check_eq_ok_iff.1 checked
  obtain ⟨logs, read, ordered, planned⟩ :=
    run_readListed_made valid separate sound clearable all outside rfl fits permutes
  refine ⟨logs, read, ordered, planned, fun k bs => ?_, rfl, fun _ _ p _ => List.length_mapIdx, ?_⟩
  · -- the account is made of the same batches
    rw [planned]
    simp only [Planned, PlannedTopic.made, PlannedPartition.made, List.mem_map,
      exists_exists_and_eq_and]
  · intro t _ p _ i message here
    obtain ⟨r, records, value⟩ := records_messageBatch i message
    exact ⟨_, r, getElem?_messageBatches here, rfl, records, value⟩

end Main

/-- A root with a partition that is not in the plan, whose log is no log. -/
def staleFiles : Tree :=
  ((Tree.emptyDirectory.put ["tmp", "work", "logs"] .directory).put
    ["tmp", "work", "logs", "old-7"] .directory).put
    ["tmp", "work", "logs", "old-7", logFileName] (.file [1, 2, 3])

theorem sound_staleFiles : staleFiles.Sound :=
  ((Tree.sound_emptyDirectory.put (by decide) (by decide) (by decide)).put (by decide) (by decide)
    (by decide)).put (by decide) (by decide) (by decide)

/-- What was in the root is not read, and topics with dashes and digits are told apart. -/
theorem generate_readBack_stale :
    samplePlan.Separate ∧
      staleFiles.Avoids samplePlan.serverPropertiesPath (staleFiles.destination samplePlan.root) ∧
      staleFiles.Clearable samplePlan.root ∧ staleFiles.Sound ∧
      (∀ t ∈ samplePlan.topics, ∀ p ∈ t.partitions, ∀ b ∈ messageBatches p.logs, b.Fits) ∧
      (∀ es : List DirectoryEntry, es.reverse.Perm es) ∧
      ∃ made w' logs,
        (generate samplePlan : Tried InWorld GeneratedLogDirectory).run { files := staleFiles } =
          .ok (.ok made) w' ∧
        (readListed List.reverse samplePlan.root).run w' = .ok (.ok logs) w' ∧
        ReadBack samplePlan made logs := by
  have outside : staleFiles.Avoids samplePlan.serverPropertiesPath
      (staleFiles.destination samplePlan.root) := by decide +kernel
  have clearable : staleFiles.Clearable samplePlan.root :=
    Tree.clearable_of_onward (by decide) (by decide +kernel)
  have fits : ∀ t ∈ samplePlan.topics, ∀ p ∈ t.partitions, ∀ b ∈ messageBatches p.logs,
      b.Fits := by decide +kernel
  obtain ⟨w', run, -⟩ := generate_succeeds check_samplePlan { files := staleFiles }
    (by decide +kernel)
  obtain ⟨logs, read, back⟩ := generate_readBack (w := { files := staleFiles })
    separate_samplePlan outside clearable sound_staleFiles fits List.reverse_perm run
  exact ⟨separate_samplePlan, outside, clearable, sound_staleFiles, fits, List.reverse_perm,
    _, w', logs, run, read, back⟩

/-! ### Roots that are not cleared -/

/-- The names, the lengths and the place of the configuration are those for which a log directory
reads back, and it is made; but what is read of it is not the plan, in whatever order it is
listed. -/
structure ReadsOtherwise (plan : LogDirectoryPlan) (files : Tree) : Prop where
  separate : plan.Separate
  outside : ¬ files.destination plan.root <+: files.destination plan.serverPropertiesPath
  sound : files.Sound
  fits : ∀ t ∈ plan.topics, ∀ p ∈ t.partitions, ∀ b ∈ messageBatches p.logs, b.Fits
  otherwise : ∃ made w',
    (generate plan : Tried InWorld GeneratedLogDirectory).run { files } = .ok (.ok made) w' ∧
    ∀ arrange : List DirectoryEntry → List DirectoryEntry, (∀ es, (arrange es).Perm es) →
      ¬ ∃ logs w'', (readListed arrange plan.root).run w' = .ok (.ok logs) w'' ∧
        ReadBack plan made logs

/-- A plan without topics. -/
def bare (root serverPropertiesPath : String) : LogDirectoryPlan :=
  { root, serverPropertiesPath, topics := [] }

/-- What is listed in the root once the log directory is made. -/
def listedAfter (plan : LogDirectoryPlan) (files : Tree) :
    Except SystemError (Except SystemError (List DirectoryEntry)) :=
  (remade plan 0 files).map fun after => (after.list plan.root).map (List.map entryOf)

/-- A plan without topics does not read back where a partition is listed. -/
theorem readsOtherwise_bare {root server : String} {files : Tree}
    {listed : Except SystemError (List DirectoryEntry)} (sound : files.Sound)
    (outside : ¬ files.destination root <+: files.destination server)
    (seen : listedAfter (bare root server) files = .ok listed)
    (extra : ∀ es, listed = .ok es → ∃ e ∈ es, ∃ key, NamedFor e key) :
    ReadsOtherwise (bare root server) files where
  separate := ⟨fun _ mem => absurd mem List.not_mem_nil, fun _ mem => absurd mem List.not_mem_nil⟩
  outside := outside
  sound := sound
  fits _ mem := absurd mem List.not_mem_nil
  otherwise := by
    cases all : remade (bare root server) 0 files with
    | error e =>
      rw [listedAfter, all] at seen
      cases seen
    | ok after =>
      rw [listedAfter, all] at seen
      obtain rfl := Except.ok.inj seen
      have fine : (remade (bare root server) 0 files).isOk := by
        rw [all]
        rfl
      obtain ⟨w', run, made⟩ := generate_succeeds rfl { files } fine
      obtain rfl : after = w'.files := Except.ok.inj (all.symm.trans made)
      refine ⟨_, w', run, ?_⟩
      rintro arrange permutes ⟨logs, w'', read, back⟩
      obtain ⟨nodes, list, entries⟩ := ok_of_readListed read
      obtain ⟨e, mem, key, named⟩ := extra _ (congrArg (Except.map (List.map entryOf)) list)
      obtain ⟨batches, here⟩ := entries.exists_mem ((permutes _).mem_iff.2 mem) named
      obtain ⟨t, none, -⟩ := (back.planned key batches).1 here
      cases none

/-- A root with a partition that is not in the plan, whose log is empty. -/
def oldFiles : Tree := staleFiles.put ["tmp", "work", "logs", "old-7", logFileName] (.file [])

/-- What is listed when the directory of that partition is in the root. -/
def oldListed : List DirectoryEntry :=
  [⟨"old-7", true⟩, ⟨metaPropertiesFileName, false⟩, ⟨cleanShutdownFileName, false⟩,
    ⟨metadataDirectoryName, true⟩]

theorem extra_oldListed : ∃ e ∈ oldListed, ∃ key, NamedFor e key := by
  refine ⟨_, List.mem_cons_self, ("old", 7), ?_, by decide +kernel⟩
  rintro (file | metadata)
  · cases file
  · exact absurd metadata (by decide)

/-- **Not every log directory that is made reads back.**  Where the path of the root leads back
through a missing directory, nothing is found at its end and nothing removed; where that of the
configuration leads back through the root, a directory is made there; and where it is empty, the
files go to the current directory, but nothing can be listed. -/
theorem not_generate_readBack :
    ReadsOtherwise (bare "gone/../logs" "server.properties") oldFiles ∧
    ReadsOtherwise (bare "logs" "logs/old-7/../../server.properties") Tree.emptyDirectory ∧
    ReadsOtherwise (bare "" "../server.properties") Tree.emptyDirectory := by
  have sound : oldFiles.Sound := sound_staleFiles.put (by decide) (by decide) (by decide)
  have stays : listedAfter (bare "gone/../logs" "server.properties") oldFiles =
      .ok (.ok oldListed) := by decide +kernel
  have made : listedAfter (bare "logs" "logs/old-7/../../server.properties")
      Tree.emptyDirectory = .ok (.ok oldListed) := by decide +kernel
  have nowhere : listedAfter (bare "" "../server.properties") Tree.emptyDirectory =
      .ok (.error .notFound) := by decide +kernel
  refine ⟨readsOtherwise_bare sound (by decide +kernel) stays fun es listed => ?_,
    readsOtherwise_bare Tree.sound_emptyDirectory (by decide +kernel) made fun es listed => ?_,
    readsOtherwise_bare Tree.sound_emptyDirectory (by decide +kernel) nowhere fun es listed => ?_⟩
  · exact Except.ok.inj listed ▸ extra_oldListed
  · exact Except.ok.inj listed ▸ extra_oldListed
  · cases listed

end BrokerExam.LogDirectory
