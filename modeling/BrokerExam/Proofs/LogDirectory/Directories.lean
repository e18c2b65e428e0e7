/-
BrokerExam/Proofs/LogDirectory/Directories.lean

What is kept of the directories that are read.  A number may be spelled in more
ways than the one in which it is written, so two directories can have names for one
partition; then only the log of the last of them is kept.  Of directories whose
names are spelled as they are written, every log is.

Main result: `partitionDirectories_read`.
-/
import BrokerExam.Proofs.LogDirectory.ReadBack

namespace BrokerExam.LogDirectory

open Files Rehearsal

/-! ### Names as they are written -/

/-- The name is not read as a partition for which another name would be written. -/
def AsWritten (name : String) : Prop :=
  ∀ topic id, partitionOfName? name = some (topic, id) → name = partitionName topic id

section Names

variable {name name' topic : String} {id : Int32} {key : String × Int32}

theorem asWritten_partitionName (some : topic ≠ "") (positive : 0 ≤ id) :
    AsWritten (partitionName topic id) := by
  intro topic' id' read
  rw [partitionOfName?_partitionName some positive] at read
  obtain ⟨rfl, rfl⟩ := Prod.mk.inj (Option.some.inj read)
  rfl

/-- Two names that are spelled as they are written are not read as one partition. -/
theorem AsWritten.inj (h : AsWritten name) (h' : AsWritten name')
    (read : partitionOfName? name = some key) (read' : partitionOfName? name' = some key) :
    name = name' :=
  (h key.1 key.2 read).trans (h' key.1 key.2 read').symm

/-- Where all names are spelled as they are written, nothing that is found is dropped. -/
theorem ReadEntries.kept {w : World} {root : String} {es : List DirectoryEntry}
    {logs : PartitionLogs} {e : DirectoryEntry} {batches : List RecordBatch}
    (read : ReadEntries w.files root es logs)
    (written : ∀ e ∈ es, AsWritten e.name) (mem : e ∈ es)
    (found : Found w.files root e key batches) : (key, batches) ∈ logs := by
  have named := found.namedFor
  obtain ⟨before, e', after, rfl, named', later⟩ := exists_last mem named
  have mem' : e' ∈ before ++ e' :: after := List.mem_append_right _ List.mem_cons_self
  obtain ⟨batches', found'⟩ := read.each e' mem' key named'
  -- the last entry for the partition has the same name, so it is this one
  obtain rfl : e' = e := by
    have name := (written e' mem').inj (written e mem) named'.2 named.2
    cases e
    cases e'
    cases found.directory
    cases found'.directory
    cases name
    rfl
  obtain ⟨-, rfl⟩ := found.unique found'
  exact (read.last key batches').2 ⟨before, e', after, rfl, found, later⟩

end Names

/-! ### The directory -/

/-- **Which directories are read as partitions, and what is kept of them.**  A name is read if its
topic is not empty and its number, not negative, is spelled in one of the ways there are, of which
the one without a plus sign and zeros in front is that in which it is written.  Names that are
spelled as they are written are not read as one partition.  Of the directories that are read as one
partition the last is kept, in the order in which they are listed; if all names are spelled as they
are written, none is dropped. -/
theorem partitionDirectories_read (arrange : List DirectoryEntry → List DirectoryEntry)
    (root : String) :
    (∀ name topic id, partitionOfName? name = some (topic, id) ↔
      topic ≠ "" ∧ 0 ≤ id ∧ ∃ plus zeros, name = spelledName topic plus zeros id) ∧
    (∀ topic id, spelledName topic false 0 id = partitionName topic id) ∧
    (∀ name topic id, partitionOfName? name = some (topic, id) ∧ AsWritten name ↔
      topic ≠ "" ∧ 0 ≤ id ∧ name = partitionName topic id) ∧
    (∀ name name' key, AsWritten name → AsWritten name' → partitionOfName? name = some key →
      partitionOfName? name' = some key → name = name') ∧
    ∀ w w' logs, (readListed arrange root).run w = .ok (.ok logs) w' →
      ∃ nodes, w.files.list root = .ok nodes ∧
        ReadEntries w.files root (arrange (nodes.map entryOf)) logs ∧
        ((∀ e ∈ arrange (nodes.map entryOf), AsWritten e.name) → ∀ key batches,
          (key, batches) ∈ logs ↔
            ∃ e ∈ arrange (nodes.map entryOf), Found w.files root e key batches) := by
  refine ⟨fun _ _ _ => partitionOfName?_eq_some_iff, spelledName_plain, fun name topic id => ?_,
    fun _ _ _ h h' => h.inj h', fun w w' logs run => ?_⟩
  · constructor
    · rintro ⟨read, written⟩
      obtain ⟨some, positive, -⟩ := partitionOfName?_eq_some_iff.1 read
      exact ⟨some, positive, written topic id read⟩
    · rintro ⟨some, positive, rfl⟩
      exact ⟨partitionOfName?_partitionName some positive,
        asWritten_partitionName some positive⟩
  · obtain ⟨nodes, list, read⟩ := ok_of_readListed run
    refine ⟨nodes, list, read, fun written key batches => ⟨fun mem => ?_, ?_⟩⟩
    · obtain ⟨before, e, after, whole, found, -⟩ := (read.last key batches).1 mem
      exact ⟨e, whole ▸ List.mem_append_right before List.mem_cons_self, found⟩
    · rintro ⟨e, mem, found⟩
      exact read.kept written mem found

/-- A root with one partition, which has one message. -/
def loneFiles : Tree :=
  ((Tree.emptyDirectory.put ["tmp", "work", "logs"] .directory).put
    ["tmp", "work", "logs", "foo-0"] .directory).put
    ["tmp", "work", "logs", "foo-0", logFileName] (.file (encodeLog (messageBatches ["a"])))

/-- The root with another directory that has a name for the partition, whose log is empty. -/
def twinFiles : Tree :=
  (loneFiles.put ["tmp", "work", "logs", "foo-00"] .directory).put
    ["tmp", "work", "logs", "foo-00", logFileName] (.file [])

section Samples

variable {files : Tree} {w : World}

theorem found_foo
    (read : files.read "logs/foo-0/00000000000000000000.log" =
      .ok (encodeLog (messageBatches ["a"]))) :
    Found files "logs" ⟨"foo-0", true⟩ ("foo", 0) (messageBatches ["a"]) where
  directory := rfl
  other := by decide
  named := by decide +kernel
  log := by
    refine ⟨_, read, ?_⟩
    rw [decodeLog_encodeLog (by decide +kernel), map_normalized_messageBatches]

theorem found_loneFiles :
    Found loneFiles "logs" ⟨"foo-0", true⟩ ("foo", 0) (messageBatches ["a"]) :=
  found_foo (by decide +kernel)

theorem found_twinFiles :
    Found twinFiles "logs" ⟨"foo-0", true⟩ ("foo", 0) (messageBatches ["a"]) ∧
      Found twinFiles "logs" ⟨"foo-00", true⟩ ("foo", 0) [] :=
  ⟨found_foo (by decide +kernel), rfl, by decide, by decide +kernel, [], by decide +kernel, rfl⟩

theorem list_twinFiles :
    twinFiles.list "logs" = .ok [("foo-0", .directory), ("foo-00", .directory)] := by
  decide +kernel

theorem run_loneFiles : (readListed id "logs").run { files := loneFiles } =
    .ok (.ok [(("foo", 0), messageBatches ["a"])]) { files := loneFiles } := by
  have list : loneFiles.list "logs" = .ok [("foo-0", .directory)] := by decide +kernel
  rw [readListed_eq, run_bind_of_ok (run_list (w := { files := loneFiles }) list)]
  show (List.foldlM (readPartition "logs") [] [⟨"foo-0", true⟩] : Tried InWorld _).run _ = _
  rw [List.foldlM_cons,
    run_bind_of_ok (readPartition_found (w := { files := loneFiles }) found_loneFiles)]
  rfl

/-- What the one directory holds is dropped. -/
theorem run_twinFiles : (readListed id "logs").run { files := twinFiles } =
    .ok (.ok [(("foo", 0), [])]) { files := twinFiles } := by
  obtain ⟨first, second⟩ := found_twinFiles
  rw [readListed_eq, run_bind_of_ok (run_list (w := { files := twinFiles }) list_twinFiles)]
  show (List.foldlM (readPartition "logs") [] [⟨"foo-0", true⟩, ⟨"foo-00", true⟩] :
    Tried InWorld _).run _ = _
  rw [List.foldlM_cons, run_bind_of_ok (readPartition_found (w := { files := twinFiles }) first),
    List.foldlM_cons, run_bind_of_ok (readPartition_found (w := { files := twinFiles }) second)]
  rfl

end Samples

/-- One directory is read and kept; of two that are read as one partition, the last is. -/
theorem partitionDirectories_read_foo :
    (AsWritten "foo-0" ∧ partitionOfName? "foo-0" = some ("foo", 0)) ∧
    (∃ w' logs, (readListed id "logs").run { files := loneFiles } = .ok (.ok logs) w' ∧
      ∃ nodes, loneFiles.list "logs" = .ok nodes ∧
        (∀ e ∈ id (nodes.map entryOf), AsWritten e.name) ∧ ∀ key batches,
          (key, batches) ∈ logs ↔
            ∃ e ∈ id (nodes.map entryOf), Found loneFiles "logs" e key batches) ∧
    ∃ w' logs, (readListed id "logs").run { files := twinFiles } = .ok (.ok logs) w' ∧
      ∃ nodes, twinFiles.list "logs" = .ok nodes ∧
        ReadEntries twinFiles "logs" (nodes.map entryOf) logs := by
  obtain ⟨-, -, exact, -, reading⟩ := partitionDirectories_read id "logs"
  obtain ⟨read, written⟩ := (exact "foo-0" "foo" 0).2 ⟨by decide, by decide, by decide +kernel⟩
  refine ⟨⟨written, read⟩, ⟨_, _, run_loneFiles, ?_⟩, _, _, run_twinFiles, ?_⟩
  · obtain ⟨nodes, list, -, kept⟩ := reading _ _ _ run_loneFiles
    obtain rfl : [("foo-0", Node.directory)] = nodes := by
      have known : loneFiles.list "logs" = .ok [("foo-0", .directory)] := by decide +kernel
      exact Except.ok.inj (known.symm.trans list)
    have all : ∀ e ∈ id ([("foo-0", Node.directory)].map entryOf), AsWritten e.name := by
      intro e mem
      rw [List.mem_singleton.1 mem]
      exact written
    exact ⟨_, list, all, kept all⟩
  · obtain ⟨nodes, list, entries, -⟩ := reading _ _ _ run_twinFiles
    exact ⟨nodes, list, entries⟩

/-- A name that is not written for a partition is read as one, and what is found in a directory
can be dropped. -/
theorem not_partitionDirectories_apart :
    (¬ ∀ name topic id, partitionOfName? name = some (topic, id) ↔
      topic ≠ "" ∧ 0 ≤ id ∧ name = partitionName topic id) ∧
    ∃ nodes w' logs, twinFiles.list "logs" = .ok nodes ∧
      (readListed id "logs").run { files := twinFiles } = .ok (.ok logs) w' ∧
      ∃ e ∈ nodes, ∃ key batches, Found twinFiles "logs" (entryOf e) key batches ∧
        (key, batches) ∉ logs := by
  refine ⟨fun exact => ?_, _, _, _, list_twinFiles, run_twinFiles, ?_⟩
  · have zeros := (exact "foo-00" "foo" 0).1 (by decide +kernel)
    exact absurd zeros.2.2 (by decide +kernel)
  · exact ⟨_, List.mem_cons_self, _, _, found_twinFiles.1, fun mem => by
      cases (Prod.mk.inj (List.mem_singleton.1 mem)).2⟩

end BrokerExam.LogDirectory
