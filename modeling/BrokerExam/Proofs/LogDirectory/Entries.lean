/-
BrokerExam/Proofs/LogDirectory/Entries.lean

What was read, if reading the partitions below a root succeeded.  Every directory
with a name for a partition had a log that is one, and what is kept for a partition
is the log of the last of its directories (`ReadEntries`).

Main result: `ok_of_readListed`.
-/
import Mathlib.Tactic.Tauto
import BrokerExam.Proofs.LogDirectory.Reading

namespace BrokerExam.LogDirectory

open Files Rehearsal

/-! ### One entry -/

/-- The entry is a directory with a name for the partition. -/
def NamedFor (e : DirectoryEntry) (key : String × Int32) : Prop :=
  ¬ Skipped e ∧ partitionOfName? e.name = some key

section Entry

variable {root directory : String} {e : DirectoryEntry} {key : String × Int32}
  {batches : List RecordBatch} {logs logs' : PartitionLogs} {w w' : World}

theorem Found.namedFor (h : Found w.files root e key batches) : NamedFor e key :=
  ⟨h.not_skipped, h.named⟩

theorem ok_of_readRecordBatches
    (run : (readRecordBatches directory : Tried InWorld _).run w = .ok (.ok batches) w') :
    w' = w ∧ ∃ bs, w.files.read (join directory logFileName) = .ok bs ∧
      decodeLog bs = .ok batches := by
  obtain ⟨v, w₁, ended, rfl, how⟩ := ends_readRecordBatches directory w
  obtain ⟨rfl, rfl⟩ := EStateM.Result.ok.inj (ended.symm.trans run)
  rcases how with ⟨log, bs, read, decoded, same⟩ | ⟨t, same⟩
  · obtain rfl := Except.ok.inj same
    exact ⟨rfl, log, read, decoded⟩
  · cases same

/-- What one entry has been read as: the batches found in it are in the place of those that its
partition had, and if it has a name for a partition, batches were found. -/
theorem ok_of_readPartition (ordered : logs.Ordered)
    (run : (readPartition root logs e : Tried InWorld _).run w = .ok (.ok logs') w') :
    w'.files = w.files ∧ logs'.Ordered ∧
      (∀ key, NamedFor e key → ∃ batches, Found w.files root e key batches) ∧
      ∀ key batches, (key, batches) ∈ logs' ↔
        Found w.files root e key batches ∨ (key, batches) ∈ logs ∧ ¬ NamedFor e key := by
  by_cases skipped : Skipped e
  · -- an entry that is passed over
    rw [readPartition_skipped skipped] at run
    obtain ⟨same, rfl⟩ := EStateM.Result.ok.inj run
    obtain rfl := Except.ok.inj same
    refine ⟨rfl, ordered, fun key named => absurd skipped named.1, fun key batches => ?_⟩
    rw [or_iff_right fun found => Found.not_skipped found skipped,
      and_iff_left fun named => named.1 skipped]
  have listed : e.isDirectory = true ∧ e.name ≠ metadataDirectoryName := by
    rw [Skipped, not_or] at skipped
    exact ⟨eq_true_of_ne_false skipped.1, skipped.2⟩
  have kept : ¬ (!e.isDirectory || decide (e.name = metadataDirectoryName)) = true := by
    rw [listed.1, decide_eq_false listed.2]
    decide
  rw [readPartition, if_neg kept] at run
  cases named : partitionOfName? e.name with
  | none =>
    -- a directory that has no name for a partition, which a warning tells of
    rw [named] at run
    obtain ⟨same, rfl⟩ := EStateM.Result.ok.inj run
    obtain rfl := Except.ok.inj same
    have nameless (key : String × Int32) : ¬ NamedFor e key := fun h => by
      cases h.2.symm.trans named
    refine ⟨rfl, ordered, fun key h => absurd h (nameless key), fun key batches => ?_⟩
    rw [or_iff_right fun found => nameless key (Found.namedFor found),
      and_iff_left (nameless key)]
  | some k =>
    rw [named] at run
    obtain ⟨bs, w₁, read, done⟩ := ok_of_run_bind run
    obtain ⟨rfl, log⟩ := ok_of_readRecordBatches read
    obtain ⟨same, rfl⟩ := EStateM.Result.ok.inj done
    obtain rfl := Except.ok.inj same
    have found : Found w₁.files root e k bs := ⟨listed.1, listed.2, named, log⟩
    have named_iff (key : String × Int32) : NamedFor e key ↔ key = k :=
      ⟨fun h => Option.some.inj (h.2.symm.trans named), fun h => h ▸ found.namedFor⟩
    have found_iff (key : String × Int32) (batches : List RecordBatch) :
        Found w₁.files root e key batches ↔ key = k ∧ batches = bs := by
      refine ⟨found.unique, ?_⟩
      rintro ⟨rfl, rfl⟩
      exact found
    refine ⟨rfl, PartitionLogs.ordered_insert ordered,
      fun key h => ⟨bs, (named_iff key).1 h ▸ found⟩, fun key batches => ?_⟩
    rw [PartitionLogs.mem_insert ordered, found_iff, named_iff, and_comm (a := key ≠ k)]

end Entry

/-! ### All entries -/

/-- The batches were found in the last of the entries that have names for the partition. -/
def LastFound (files : Tree) (root : String) (es : List DirectoryEntry) (key : String × Int32)
    (batches : List RecordBatch) : Prop :=
  ∃ before e after, es = before ++ e :: after ∧ Found files root e key batches ∧
    ∀ e' ∈ after, ¬ NamedFor e' key

/-- What was read of the entries. -/
structure ReadEntries (files : Tree) (root : String) (es : List DirectoryEntry)
    (logs : PartitionLogs) : Prop where
  /-- Every partition is there once, in its place, -/
  ordered : logs.Ordered
  /-- each directory with a name for a partition had a log that is one, -/
  each : ∀ e ∈ es, ∀ key, NamedFor e key → ∃ batches, Found files root e key batches
  /-- and what is kept for a partition was in the last of those with names for it. -/
  last : ∀ key batches, (key, batches) ∈ logs ↔ LastFound files root es key batches

section Entries

variable {root : String} {e : DirectoryEntry} {es : List DirectoryEntry} {key : String × Int32}
  {batches : List RecordBatch} {logs logs' : PartitionLogs} {files : Tree} {w w' : World}

theorem lastFound_nil : ¬ LastFound files root [] key batches := by
  rintro ⟨before, e, after, whole, -⟩
  cases List.append_ne_nil_of_right_ne_nil before (List.cons_ne_nil e after) whole.symm

theorem lastFound_cons : LastFound files root (e :: es) key batches ↔
    LastFound files root es key batches ∨
      Found files root e key batches ∧ ∀ e' ∈ es, ¬ NamedFor e' key := by
  constructor
  · rintro ⟨before, e₀, after, whole, found, later⟩
    rcases List.cons_eq_append_iff.1 whole with ⟨rfl, same⟩ | ⟨before', rfl, rest⟩
    · obtain ⟨rfl, rfl⟩ := List.cons.inj same
      exact .inr ⟨found, later⟩
    · exact .inl ⟨before', e₀, after, rest, found, later⟩
  · rintro (⟨before, e₀, after, rfl, found, later⟩ | ⟨found, later⟩)
    · exact ⟨e :: before, e₀, after, rfl, found, later⟩
    · exact ⟨[], e, es, rfl, found, later⟩

/-- What has been read of all entries, where something had been read before. -/
theorem ok_of_foldlM_readPartition (ordered : logs.Ordered)
    (run : (es.foldlM (readPartition root) logs : Tried InWorld _).run w = .ok (.ok logs') w') :
    logs'.Ordered ∧
      (∀ e ∈ es, ∀ key, NamedFor e key → ∃ batches, Found w.files root e key batches) ∧
      ∀ key batches, (key, batches) ∈ logs' ↔ LastFound w.files root es key batches ∨
        (key, batches) ∈ logs ∧ ∀ e ∈ es, ¬ NamedFor e key := by
  induction es generalizing logs w with
  | nil =>
    obtain ⟨same, -⟩ := EStateM.Result.ok.inj run
    obtain rfl := Except.ok.inj same
    refine ⟨ordered, fun e mem => absurd mem List.not_mem_nil, fun key batches => ?_⟩
    rw [or_iff_right lastFound_nil, and_iff_left fun e mem => absurd mem List.not_mem_nil]
  | cons e es ih =>
    rw [List.foldlM_cons] at run
    obtain ⟨logs₁, w₁, one, others⟩ := ok_of_run_bind run
    obtain ⟨files, ordered₁, here, mem₁⟩ := ok_of_readPartition ordered one
    obtain ⟨ordered', later, mem⟩ := ih ordered₁ others
    rw [files] at later mem
    refine ⟨ordered', List.forall_mem_cons.2 ⟨here, later⟩, fun key batches => ?_⟩
    -- what an entry brings is kept until there is another one for the partition
    rw [mem, mem₁, lastFound_cons, List.forall_mem_cons]
    tauto

/-- Where one of the entries has a name for the partition, one of them is the last. -/
theorem exists_last (mem : e ∈ es) (named : NamedFor e key) :
    ∃ before e' after, es = before ++ e' :: after ∧ NamedFor e' key ∧
      ∀ e'' ∈ after, ¬ NamedFor e'' key := by
  induction es generalizing e with
  | nil => cases mem
  | cons e₀ es ih =>
    by_cases later : ∃ e' ∈ es, NamedFor e' key
    · obtain ⟨e', mem', named'⟩ := later
      obtain ⟨before, e₁, after, rfl, last⟩ := ih mem' named'
      exact ⟨e₀ :: before, e₁, after, rfl, last⟩
    · have none : ∀ e' ∈ es, ¬ NamedFor e' key := fun e' mem' named' => later ⟨e', mem', named'⟩
      obtain rfl : e = e₀ := by
        rcases List.mem_cons.1 mem with first | other
        · exact first
        · exact absurd named (none e other)
      exact ⟨[], e, es, rfl, named, none⟩

/-- A partition for which one of the entries has a name was read. -/
theorem ReadEntries.exists_mem (read : ReadEntries files root es logs) (mem : e ∈ es)
    (named : NamedFor e key) : ∃ batches, (key, batches) ∈ logs := by
  obtain ⟨before, e', after, rfl, named', later⟩ := exists_last mem named
  obtain ⟨batches, found⟩ :=
    read.each e' (List.mem_append_right _ List.mem_cons_self) key named'
  exact ⟨batches, (read.last key batches).2 ⟨before, e', after, rfl, found, later⟩⟩

end Entries

/-! ### The directory -/

theorem ok_of_readListed {arrange : List DirectoryEntry → List DirectoryEntry} {root : String}
    {w w' : World} {logs : PartitionLogs}
    (run : (readListed arrange root).run w = .ok (.ok logs) w') :
    ∃ nodes, w.files.list root = .ok nodes ∧
      ReadEntries w.files root (arrange (nodes.map entryOf)) logs := by
  rw [readListed_eq] at run
  obtain ⟨es, w₁, listed, read⟩ := ok_of_run_bind run
  cases list : w.files.list root with
  | error e =>
    rw [run_listed, list] at listed
    cases listed
  | ok nodes =>
    rw [run_list list] at listed
    obtain ⟨same, rfl⟩ := EStateM.Result.ok.inj listed
    obtain rfl := Except.ok.inj same
    obtain ⟨ordered, each, mem⟩ := ok_of_foldlM_readPartition .nil read
    refine ⟨nodes, rfl, ordered, each, fun key batches => ?_⟩
    rw [mem, or_iff_left fun h => absurd h.1 List.not_mem_nil]

end BrokerExam.LogDirectory
