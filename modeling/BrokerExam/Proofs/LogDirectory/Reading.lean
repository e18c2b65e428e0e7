/-
BrokerExam/Proofs/LogDirectory/Reading.lean

Reading a log directory, one entry after the other.  What is read is a map in the
order of its keys, whatever the order of the entries (`run_readListed`).
-/
import Mathlib.Data.String.Basic
import BrokerExam.Proofs.LogDirectory.Recording
import BrokerExam.Proofs.LogDirectory.Names

namespace BrokerExam.LogDirectory

open Files Rehearsal

/-! ### Maps from partitions to batches -/

namespace PartitionLogs

variable {key k k' k'' : String × Int32} {batches bs : List RecordBatch} {logs : PartitionLogs}

/-- The one partition comes before the other. -/
def Before (k k' : String × Int32) : Prop := k.1 < k'.1 ∨ k.1 = k'.1 ∧ k.2 < k'.2

/-- The partitions stand in order, each of them once. -/
def Ordered (logs : PartitionLogs) : Prop := logs.Pairwise fun a b => Before a.1 b.1

theorem Before.trans (h : Before k k') (h' : Before k' k'') : Before k k'' := by
  rcases h with topic | ⟨same, id⟩ <;> rcases h' with topic' | ⟨same', id'⟩
  · exact .inl (String.lt_trans topic topic')
  · exact .inl (same' ▸ topic)
  · exact .inl (same ▸ topic')
  · exact .inr ⟨same.trans same', Int32.lt_trans id id'⟩

theorem Before.ne (h : Before k k') : k ≠ k' := by
  rintro rfl
  rcases h with topic | ⟨-, id⟩
  · exact String.lt_irrefl _ topic
  · exact Int32.lt_irrefl id

theorem before_or_before (ne : k ≠ k') : Before k k' ∨ Before k' k := by
  rcases lt_trichotomy k.1 k'.1 with topic | same | topic
  · exact .inl (.inl topic)
  · rcases Int32.lt_or_lt_of_ne fun id => ne (Prod.ext same id) with id | id
    · exact .inl (.inr ⟨same, id⟩)
    · exact .inr (.inr ⟨same.symm, id⟩)
  · exact .inr (.inl topic)

/-- What is inserted stands in the place of what the partition had. -/
theorem mem_insert (ordered : Ordered logs) : (k, bs) ∈ insert key batches logs ↔
    k = key ∧ bs = batches ∨ k ≠ key ∧ (k, bs) ∈ logs := by
  induction logs with
  | nil => simp [insert]
  | cons first rest ih =>
    obtain ⟨k₀, old⟩ := first
    obtain ⟨behind, rest_ordered⟩ := List.pairwise_cons.1 ordered
    rw [insert]
    split
    · next same =>
      -- the key comes first, so it is not among the rest
      subst same
      rw [List.mem_cons, List.mem_cons]
      constructor
      · rintro (here | later)
        · exact .inl (Prod.mk.inj here)
        · exact .inr ⟨(behind _ later).ne.symm, .inr later⟩
      · rintro (⟨rfl, rfl⟩ | ⟨ne, here | later⟩)
        · exact .inl rfl
        · exact absurd (Prod.mk.inj here).1 ne
        · exact .inr later
    · next other =>
      split
      · next before =>
        rw [List.mem_cons, Prod.mk.injEq]
        refine or_congr_right ⟨fun mem => ⟨?_, mem⟩, fun h => h.2⟩
        rcases List.mem_cons.1 mem with here | later
        · rw [(Prod.mk.inj here).1]
          exact (Before.ne before).symm
        · exact (Before.trans before (behind _ later)).ne.symm
      · rw [List.mem_cons, List.mem_cons, ih rest_ordered, Prod.mk.injEq]
        constructor
        · rintro (⟨rfl, rfl⟩ | ⟨rfl, rfl⟩ | ⟨ne, later⟩)
          · exact .inr ⟨Ne.symm other, .inl ⟨rfl, rfl⟩⟩
          · exact .inl ⟨rfl, rfl⟩
          · exact .inr ⟨ne, .inr later⟩
        · rintro (⟨rfl, rfl⟩ | ⟨ne, here | later⟩)
          · exact .inr (.inl ⟨rfl, rfl⟩)
          · exact .inl here
          · exact .inr (.inr ⟨ne, later⟩)

theorem ordered_insert (ordered : Ordered logs) : Ordered (insert key batches logs) := by
  induction logs with
  | nil => exact List.pairwise_singleton _ _
  | cons first rest ih =>
    obtain ⟨k₀, old⟩ := first
    have behind := List.pairwise_cons.1 ordered
    rw [insert]
    split
    · next same =>
      subst same
      exact List.pairwise_cons.2 behind
    · next other =>
      split
      · next before =>
        refine List.pairwise_cons.2 ⟨?_, ordered⟩
        intro e mem
        rcases List.mem_cons.1 mem with rfl | later
        · exact before
        · exact Before.trans before (behind.1 e later)
      · next after =>
        have before : Before k₀ key := (before_or_before other).resolve_left after
        refine List.pairwise_cons.2 ⟨?_, ih behind.2⟩
        rintro ⟨k, bs⟩ mem
        rcases (mem_insert behind.2).1 mem with ⟨rfl, -⟩ | ⟨-, later⟩
        · exact before
        · exact behind.1 _ later

end PartitionLogs

/-! ### One entry -/

/-- The entry is not the directory of a partition. -/
def Skipped (e : DirectoryEntry) : Prop := e.isDirectory = false ∨ e.name = metadataDirectoryName

/-- The entry is the directory of a partition, whose log holds the batches. -/
structure Found (files : Tree) (root : String) (e : DirectoryEntry) (key : String × Int32)
    (batches : List RecordBatch) : Prop where
  directory : e.isDirectory = true
  other : e.name ≠ metadataDirectoryName
  named : partitionOfName? e.name = some key
  log : ∃ bs, files.read (join (join root e.name) logFileName) = .ok bs ∧ decodeLog bs = .ok batches

section Entry

variable {root : String} {e : DirectoryEntry} {key : String × Int32} {batches : List RecordBatch}
  {logs : PartitionLogs} {w : World}

theorem readPartition_skipped (h : Skipped e) :
    (readPartition root logs e : Tried InWorld _).run w = .ok (.ok logs) w := by
  have skip : (!e.isDirectory || decide (e.name = metadataDirectoryName)) = true := by
    rcases h with file | metadata
    · rw [file]
      rfl
    · rw [decide_eq_true metadata, Bool.or_true]
  rw [readPartition, if_pos skip]
  rfl

theorem run_readRecordBatches {directory : String} {bs : Bytes}
    (read : w.files.read (join directory logFileName) = .ok bs)
    (decoded : decodeLog bs = .ok batches) :
    (readRecordBatches directory : Tried InWorld _).run w = .ok (.ok batches) w := by
  have held : (readLogFile directory : Tried InWorld _).run w = .ok (.ok bs) w :=
    run_attempt (r := .ok bs) (.readLog (join directory logFileName)) (by rw [← read]; rfl)
  rw [readRecordBatches, run_bind_of_ok held, decoded]
  rfl

/-- Batches are read in the same world, or there is trouble. -/
theorem ends_readRecordBatches (directory : String) (w : World) :
    Ends w (readRecordBatches directory : Tried InWorld _) fun v w' => w' = w ∧
      ((∃ log bs, w.files.read (join directory logFileName) = .ok log ∧ decodeLog log = .ok bs ∧
        v = .ok bs) ∨ ∃ t, v = .error (.trouble t)) := by
  have held : (readLogFile directory : Tried InWorld _).run w =
      .ok (attempted (.readLog (join directory logFileName)) (w.files.read _)) w :=
    run_attempt (.readLog (join directory logFileName)) rfl
  cases read : w.files.read (join directory logFileName) with
  | error e =>
    rw [read] at held
    exact ⟨_, w, run_bind_of_error held, rfl, .inr ⟨_, rfl⟩⟩
  | ok log =>
    cases decoded : decodeLog log with
    | error e =>
      rw [read] at held
      refine Ends.step held ?_
      rw [decoded]
      exact ⟨_, w, rfl, rfl, .inr ⟨_, rfl⟩⟩
    | ok bs =>
      exact ⟨_, w, run_readRecordBatches read decoded, rfl, .inl ⟨log, bs, rfl, decoded, rfl⟩⟩

theorem readPartition_found (h : Found w.files root e key batches) :
    (readPartition root logs e : Tried InWorld _).run w =
      .ok (.ok (logs.insert key batches)) w := by
  obtain ⟨bs, read, decoded⟩ := h.log
  have kept : ¬ (!e.isDirectory || decide (e.name = metadataDirectoryName)) = true := by
    rw [h.directory, decide_eq_false h.other]
    decide
  rw [readPartition, if_neg kept, h.named]
  exact run_bind_of_ok (run_readRecordBatches read decoded)

theorem Found.not_skipped (h : Found w.files root e key batches) : ¬ Skipped e := by
  rintro (file | metadata)
  · exact absurd (h.directory.symm.trans file) (by decide)
  · exact h.other metadata

/-- What is found is determined by the entry. -/
theorem Found.unique {key' : String × Int32} {batches' : List RecordBatch}
    (h : Found w.files root e key batches) (h' : Found w.files root e key' batches') :
    key' = key ∧ batches' = batches := by
  obtain ⟨bs, read, decoded⟩ := h.log
  obtain ⟨bs', read', decoded'⟩ := h'.log
  obtain rfl := Except.ok.inj (read.symm.trans read')
  exact ⟨Option.some.inj (h'.named.symm.trans h.named),
    Except.ok.inj (decoded'.symm.trans decoded)⟩

end Entry

/-! ### All entries -/

section Entries

variable {root : String} {es : List DirectoryEntry} {w : World} {logs : PartitionLogs}
  {R : String × Int32 → List RecordBatch → Prop}

/-- **Reading all entries** gives the batches of those that are partitions, each partition once and
in its place.  `R` says what may be found for a partition, which is one thing: two entries can be
read as the same partition. -/
theorem run_foldlM_readPartition (one : ∀ {k bs bs'}, R k bs → R k bs' → bs = bs')
    (each : ∀ e ∈ es, Skipped e ∨ ∃ k bs, Found w.files root e k bs ∧ R k bs)
    (ordered : logs.Ordered) (known : ∀ k bs, (k, bs) ∈ logs → R k bs) :
    ∃ logs', (es.foldlM (readPartition root) logs : Tried InWorld _).run w = .ok (.ok logs') w ∧
      logs'.Ordered ∧
      ∀ k bs, (k, bs) ∈ logs' ↔ (k, bs) ∈ logs ∨ ∃ e ∈ es, Found w.files root e k bs := by
  induction es generalizing logs with
  | nil => exact ⟨logs, rfl, ordered, fun k bs => by simp⟩
  | cons e es ih =>
    have later : ∀ e' ∈ es, Skipped e' ∨ ∃ k bs, Found w.files root e' k bs ∧ R k bs :=
      fun e' mem => each e' (List.mem_cons_of_mem e mem)
    rw [List.foldlM_cons]
    rcases each e List.mem_cons_self with skipped | ⟨key, batches, found, allowed⟩
    · -- the map so far stays
      obtain ⟨logs', run, ordered', mem⟩ := ih later ordered known
      refine ⟨logs', (run_bind_of_ok (readPartition_skipped skipped)).trans run, ordered',
        fun k bs => ?_⟩
      have nothing : ¬ Found w.files root e k bs := fun found => found.not_skipped skipped
      rw [mem, List.exists_mem_cons_iff, or_iff_right nothing]
    · -- what is inserted is what was there, if there was anything for the key
      have inserted (k : String × Int32) (bs : List RecordBatch) :
          (k, bs) ∈ logs.insert key batches ↔ (k, bs) ∈ logs ∨ Found w.files root e k bs := by
        rw [PartitionLogs.mem_insert ordered]
        constructor
        · rintro (⟨rfl, rfl⟩ | ⟨-, before⟩)
          · exact .inr found
          · exact .inl before
        · rintro (before | here)
          · by_cases same : k = key
            · subst same
              exact .inl ⟨rfl, one (known _ _ before) allowed⟩
            · exact .inr ⟨same, before⟩
          · exact .inl (found.unique here)
      have known' : ∀ k bs, (k, bs) ∈ logs.insert key batches → R k bs := by
        intro k bs mem
        rcases (inserted k bs).1 mem with before | here
        · exact known k bs before
        · obtain ⟨rfl, rfl⟩ := found.unique here
          exact allowed
      obtain ⟨logs', run, ordered', mem⟩ := ih later (PartitionLogs.ordered_insert ordered) known'
      refine ⟨logs', (run_bind_of_ok (readPartition_found found)).trans run, ordered',
        fun k bs => ?_⟩
      rw [mem, inserted, List.exists_mem_cons_iff, or_assoc]

end Entries

/-! ### The directory -/

/-- The files of a made-up world, where directories are listed in another order. -/
abbrev listing (arrange : List DirectoryEntry → List DirectoryEntry) : Storage InWorld :=
  { (inferInstance : Storage InWorld) with
    listDirectory := fun path => do return (← Storage.listDirectory path).map arrange }

/-- Reading a log directory that is listed in that order. -/
def readListed (arrange : List DirectoryEntry → List DirectoryEntry) (root : String) :
    Tried InWorld PartitionLogs :=
  @readPartitions InWorld _ (listing arrange) _ root

/-- A node as it is listed. -/
def entryOf (e : String × Node) : DirectoryEntry := ⟨e.1, e.2 == .directory⟩

section Directory

variable {arrange : List DirectoryEntry → List DirectoryEntry} {root : String}
  {nodes : List (String × Node)} {w : World} {R : String × Int32 → List RecordBatch → Prop}

/-- The order makes a difference only to the list of entries. -/
theorem readListed_eq (arrange : List DirectoryEntry → List DirectoryEntry) (root : String) :
    readListed arrange root = (do
      let entries ← attempt (.listLogDirectory root)
        (do return (← Storage.listDirectory root).map arrange)
      entries.foldlM (readPartition root) []) := rfl

/-- The entries of the root, or why it has none. -/
theorem run_listed (arrange : List DirectoryEntry → List DirectoryEntry) (root : String)
    (w : World) :
    (attempt (.listLogDirectory root)
      (do return (← Storage.listDirectory root).map arrange : InWorld _)).run w =
      .ok (attempted (.listLogDirectory root)
        ((w.files.list root).map fun nodes => arrange (nodes.map entryOf))) w := by
  have listed : (Storage.listDirectory root : InWorld _) w =
      .ok ((w.files.list root).map fun nodes => nodes.map entryOf) w := rfl
  refine run_attempt (.listLogDirectory root) ?_
  refine (bind_of_ok (f := fun r => Pure.pure (r.map arrange)) listed).trans ?_
  cases w.files.list root <;> rfl

theorem run_list (list : w.files.list root = .ok nodes) :
    (attempt (.listLogDirectory root)
      (do return (← Storage.listDirectory root).map arrange : InWorld _)).run w =
      .ok (.ok (arrange (nodes.map entryOf))) w := by
  rw [run_listed, list]
  rfl

/-- **Reading a log directory** gives the batches of the partitions in it, in the order of the
partitions and not in that of the entries. -/
theorem run_readListed (list : w.files.list root = .ok nodes)
    (permutes : ∀ es, (arrange es).Perm es)
    (one : ∀ {k bs bs'}, R k bs → R k bs' → bs = bs')
    (each : ∀ e ∈ nodes, Skipped (entryOf e) ∨
      ∃ k bs, Found w.files root (entryOf e) k bs ∧ R k bs) :
    ∃ logs, (readListed arrange root).run w = .ok (.ok logs) w ∧ logs.Ordered ∧
      ∀ k bs, (k, bs) ∈ logs ↔ ∃ e ∈ nodes, Found w.files root (entryOf e) k bs := by
  have same (e : DirectoryEntry) : e ∈ arrange (nodes.map entryOf) ↔ e ∈ nodes.map entryOf :=
    (permutes _).mem_iff
  have fine : ∀ e ∈ arrange (nodes.map entryOf), Skipped e ∨
      ∃ k bs, Found w.files root e k bs ∧ R k bs := by
    intro e mem
    obtain ⟨n, there, rfl⟩ := List.mem_map.1 ((same e).1 mem)
    exact each n there
  obtain ⟨logs, run, ordered, mem⟩ :=
    run_foldlM_readPartition (R := R) one fine .nil fun _ _ mem => absurd mem List.not_mem_nil
  refine ⟨logs, ?_, ordered, fun k bs => ?_⟩
  · rw [readListed_eq]
    exact (run_bind_of_ok (run_list list)).trans run
  · rw [mem, or_iff_right List.not_mem_nil]
    simp only [same, List.mem_map, exists_exists_and_eq_and]

end Directory

end BrokerExam.LogDirectory
