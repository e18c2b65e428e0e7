/-
BrokerExam/Proofs/LogDirectory/Offsets.lean

Where offsets end.  A batch says at which offset of 64 bits it begins and each of
its records how far behind, in 32 bits; a log is accepted whatever they say.  So the
offset of a record need not be one of 64 bits (`Representable`).

Reading batches does not add any of them up and never faults.  Reading the cluster
metadata adds them up, for a message that only a payload which cannot be read asks
for, and faults at the first sum that does not fit (`payloads_fault_iff`).  The
offset of a batch's last record is told from its count of records, by a sum that
goes one too far (`RecordBatch.lastOffset_eq_error_iff`).

Main result: `offsets_overflow`.
-/
import BrokerExam.Proofs.Batch.Readable
import BrokerExam.Proofs.LogDirectory.Directories
import BrokerExam.Proofs.LogDirectory.Metadata

namespace BrokerExam

/-! ### Offsets -/

/-- The number is one of 64 bits. -/
def Representable (n : Int) : Prop := -0x8000000000000000 ≤ n ∧ n < 0x8000000000000000

instance (n : Int) : Decidable (Representable n) :=
  inferInstanceAs (Decidable (-0x8000000000000000 ≤ n ∧ n < 0x8000000000000000))

theorem representable_toInt (o : Int64) : Representable o.toInt := ⟨o.le_toInt, o.toInt_lt⟩

theorem toInt_ofInt_iff {n : Int} : (Int64.ofInt n).toInt = n ↔ Representable n := by
  constructor
  · intro same
    rw [← same]
    exact representable_toInt _
  · exact fun ⟨low, high⟩ => Int64.toInt_ofInt_of_le low high

namespace RecordBatch

variable {b : RecordBatch}

/-- The offset of a record in the batch. -/
def offsetOf (b : RecordBatch) (r : Record) : Int := b.baseOffset.toInt + r.offsetDelta.toInt

/-- A base offset from which no delta reaches either end. -/
theorem representable_offsetOf (low : -0x7FFFFFFF80000000 ≤ b.baseOffset.toInt)
    (high : b.baseOffset.toInt ≤ 0x7FFFFFFF80000000) (r : Record) :
    Representable (b.offsetOf r) := by
  have back := r.offsetDelta.le_toInt
  have ahead := r.offsetDelta.toInt_lt
  rw [offsetOf, Representable]
  omega

/-- The sum of base offset and count is made first, and then made less by one. -/
theorem lastOffset_eq (b : RecordBatch) : b.lastOffset =
    if 0x8000000000000000 ≤ b.baseOffset.toInt + b.records.length then .error .addOverflow
    else if b.baseOffset.toInt + b.records.length = -0x8000000000000000 then
      .error .subtractOverflow
    else .ok (Int64.ofInt (b.baseOffset.toInt + b.records.length - 1)) := by
  have low := b.baseOffset.le_toInt
  rw [lastOffset]
  generalize sum_eq : b.baseOffset.toInt + (b.records.length : Int) = sum
  -- a count is not negative, so the first sum can only be too large, and the second too small
  have above : sum ≠ (Int64.ofInt sum).toInt ↔ 0x8000000000000000 ≤ sum := by
    rw [ne_comm, ne_eq, toInt_ofInt_iff, Representable]
    omega
  by_cases high : 0x8000000000000000 ≤ sum
  · rw [if_pos (above.2 high), if_pos high]
  · have under : sum - 1 ≠ (Int64.ofInt (sum - 1)).toInt ↔ sum = -0x8000000000000000 := by
      rw [ne_comm, ne_eq, toInt_ofInt_iff, Representable]
      omega
    rw [if_neg (mt above.1 high), if_neg high]
    exact if_congr under rfl rfl

/-- The last offset is told if the offset behind it is one as well. -/
theorem lastOffset_eq_ok_iff {o : Int64} : b.lastOffset = .ok o ↔
    b.baseOffset.toInt + b.records.length < 0x8000000000000000 ∧
      o.toInt = b.baseOffset.toInt + b.records.length - 1 := by
  have low := b.baseOffset.le_toInt
  have bound := o.le_toInt
  rw [lastOffset_eq]
  split
  · next high => exact ⟨nofun, fun h => absurd h.1 (Int.not_lt.2 high)⟩
  · next high =>
    split
    · next lowest => exact ⟨nofun, fun h => by omega⟩
    · next higher =>
      have fits : Representable (b.baseOffset.toInt + b.records.length - 1) := by
        rw [Representable]
        omega
      rw [Except.ok.injEq, ← Int64.toInt_inj, toInt_ofInt_iff.2 fits,
        and_iff_right (Int.not_le.1 high)]
      exact eq_comm

/-- A base offset from which no count reaches either end. -/
theorem lastOffset_ok (low : -0x7FFFFFFF80000000 ≤ b.baseOffset.toInt)
    (high : b.baseOffset.toInt ≤ 0x7FFFFFFF80000000) (few : b.FewRecords) :
    ∃ o, b.lastOffset = .ok o ∧ o.toInt = b.baseOffset.toInt + b.records.length - 1 := by
  rw [FewRecords] at few
  have fits : Representable (b.baseOffset.toInt + b.records.length - 1) := by
    rw [Representable]
    omega
  exact ⟨_, lastOffset_eq_ok_iff.2 ⟨by omega, toInt_ofInt_iff.2 fits⟩, toInt_ofInt_iff.2 fits⟩

theorem lastOffset_eq_error_iff {f : Fault} : b.lastOffset = .error f ↔
    f = .addOverflow ∧ 0x8000000000000000 ≤ b.baseOffset.toInt + b.records.length ∨
      f = .subtractOverflow ∧ b.baseOffset.toInt = -0x8000000000000000 ∧ b.records = [] := by
  have low := b.baseOffset.le_toInt
  have lowest_iff : b.baseOffset.toInt = -0x8000000000000000 ∧ b.records = [] ↔
      b.baseOffset.toInt + b.records.length = -0x8000000000000000 := by
    rw [← List.length_eq_zero_iff]
    omega
  rw [lastOffset_eq, lowest_iff]
  split
  · next high =>
    have not_lowest : b.baseOffset.toInt + b.records.length ≠ -0x8000000000000000 := by omega
    rw [Except.error.injEq, and_iff_left high, or_iff_left fun h => not_lowest h.2]
    exact eq_comm
  · next high =>
    rw [or_iff_right fun h => high h.2]
    split
    · next lowest =>
      rw [Except.error.injEq, and_iff_left lowest]
      exact eq_comm
    · next higher => exact ⟨nofun, fun h => absurd h.2 higher⟩

end RecordBatch

namespace LogDirectory

open Files Rehearsal

/-! ### Payloads -/

section Payloads

variable {b : RecordBatch} {r : Record} {bs : List RecordBatch} {f : Fault} {w : World}

/-- The record has a value, at an offset that does not fit. -/
def OutOfRange (b : RecordBatch) (r : Record) : Prop :=
  r.value.isSome ∧ ¬ Representable (b.offsetOf r)

/-- The value of the record, if it has one, is a payload at an offset that fits. -/
def Sound (b : RecordBatch) (r : Record) : Prop :=
  ∀ value, r.value = some value →
    Representable (b.offsetOf r) ∧ ∃ payload, MetadataPayload.decode value = .ok payload

/-- The first record that is not sound is at an offset that does not fit. -/
def Overflows (bs : List RecordBatch) : Prop :=
  ∃ earlier b later, bs = earlier ++ b :: later ∧ (∀ b' ∈ earlier, ∀ r ∈ b'.records, Sound b' r) ∧
    ∃ before r after, b.records = before ++ r :: after ∧ (∀ r' ∈ before, Sound b r') ∧
      OutOfRange b r

/-- The payload of a record, if it has a value, or why there is none. -/
def told (b : RecordBatch) (r : Record) : Except Failure (Option MetadataPayload) :=
  match r.value with
  | none => .ok none
  | some value =>
    if Representable (b.offsetOf r) then
      match MetadataPayload.decode value with
      | .ok payload => .ok (some payload)
      | .error e =>
        .error (.trouble ⟨[.decodeMetadataRecord (Int64.ofInt (b.offsetOf r))], .codec e⟩)
    else .error (.fault .addOverflow)

/-- A record is read without a change to the world. -/
theorem run_readPayload (b : RecordBatch) (r : Record) (w : World) :
    (readPayload b r : Tried InWorld _).run w = .ok (told b r) w := by
  rw [readPayload, told, RecordBatch.offsetOf]
  cases r.value with
  | none => rfl
  | some value =>
    dsimp only
    by_cases fits : Representable (b.baseOffset.toInt + r.offsetDelta.toInt)
    · rw [if_pos fits, if_neg (not_not.2 (toInt_ofInt_iff.2 fits))]
      cases MetadataPayload.decode value with
      | error e => rfl
      | ok payload => rfl
    · rw [if_neg fits, if_pos (mt toInt_ofInt_iff.1 fits)]
      rfl

theorem told_ok_iff : (∃ payload, told b r = .ok payload) ↔ Sound b r := by
  rw [told, Sound]
  cases r.value with
  | none => exact ⟨fun _ => nofun, fun _ => ⟨none, rfl⟩⟩
  | some value =>
    simp only [Option.some.injEq, forall_eq']
    split
    · next fits =>
      rw [and_iff_right fits]
      cases MetadataPayload.decode value with
      | error e => exact ⟨nofun, nofun⟩
      | ok payload => exact ⟨fun _ => ⟨payload, rfl⟩, fun _ => ⟨some payload, rfl⟩⟩
    · next wide => exact ⟨nofun, fun h => absurd h.1 wide⟩

theorem told_fault_iff : told b r = .error (.fault f) ↔ f = .addOverflow ∧ OutOfRange b r := by
  rw [told, OutOfRange]
  cases r.value with
  | none => exact ⟨nofun, nofun⟩
  | some value =>
    dsimp only
    split
    · next fits =>
      cases MetadataPayload.decode value with
      | error e => exact ⟨nofun, fun h => absurd fits h.2.2⟩
      | ok payload => exact ⟨nofun, fun h => absurd fits h.2.2⟩
    · next wide =>
      rw [Except.error.injEq, Failure.fault.injEq, and_iff_left ⟨rfl, wide⟩]
      exact eq_comm

/-- The payloads of all records, batch by batch, or why the first that has none has none. -/
def payloads (bs : List RecordBatch) : Except Failure (List (List (Option MetadataPayload))) :=
  bs.mapM fun b => b.records.mapM (told b)

theorem payloads_ok_iff :
    (∃ all, payloads bs = .ok all) ↔ ∀ b ∈ bs, ∀ r ∈ b.records, Sound b r := by
  simp only [payloads, mapM_ok_iff, told_ok_iff]

/-- **Payloads fault** at the first record that is not sound, if its offset does not fit. -/
theorem payloads_fault_iff :
    payloads bs = .error (.fault f) ↔ f = .addOverflow ∧ Overflows bs := by
  simp only [payloads, mapM_error_iff, mapM_ok_iff, told_ok_iff, told_fault_iff]
  constructor
  · rintro ⟨earlier, b, later, split, sound, before, r, after, split', sound', rfl, wide⟩
    exact ⟨rfl, earlier, b, later, split, sound, before, r, after, split', sound', wide⟩
  · rintro ⟨rfl, earlier, b, later, split, sound, before, r, after, split', sound', wide⟩
    exact ⟨earlier, b, later, split, sound, before, r, after, split', sound', rfl, wide⟩

/-- The payloads of a log that is accepted are read without a change to the world. -/
theorem run_readClusterMetadata {root : String} {log : Bytes}
    (read : w.files.read (join (join root metadataDirectoryName) logFileName) = .ok log)
    (decoded : decodeLog log = .ok bs) :
    (readClusterMetadata root : Tried InWorld _).run w =
      .ok ((payloads bs).map fun all => all.flatten.filterMap id) w := by
  have each : (bs.mapM fun b => b.records.mapM (readPayload b) : Tried InWorld _).run w =
      .ok (payloads bs) w :=
    run_mapM fun b _ => run_mapM fun r _ => run_readPayload b r w
  rw [readClusterMetadata, run_bind_of_ok (run_readRecordBatches read decoded)]
  cases ended : payloads bs with
  | error e =>
    rw [ended] at each
    exact run_bind_of_error each
  | ok all =>
    rw [ended] at each
    exact run_bind_of_ok each

end Payloads

/-! ### Reading without faults -/

/-- From every world the computation ends, and not with a fault. -/
def Faultless {α : Type} (x : Tried InWorld α) : Prop :=
  ∀ w, Ends w x fun v _ => ∀ f, v ≠ .error (.fault f)

namespace Faultless

variable {α β : Type} {x : Tried InWorld α} {f : α → Tried InWorld β}

theorem pure (a : α) : Faultless (Pure.pure a) := fun w => ⟨.ok a, w, rfl, nofun⟩

theorem bind (hx : Faultless x) (hf : ∀ a, Faultless (f a)) : Faultless (x >>= f) :=
  fun w => (hx w).bind (fun _ _ fine f same => fine f (congrArg _ (Except.error.inj same)))
    fun a w' _ => hf a w'

theorem foldlM {g : β → α → Tried InWorld β} (each : ∀ b a, Faultless (g b a)) (as : List α)
    (b : β) : Faultless (as.foldlM g b) := by
  induction as generalizing b with
  | nil => exact .pure b
  | cons a as ih =>
    rw [List.foldlM_cons]
    exact (each b a).bind ih

end Faultless

theorem faultless_readRecordBatches (directory : String) :
    Faultless (readRecordBatches directory) := by
  intro w
  refine (ends_readRecordBatches directory w).mono ?_
  rintro v w' ⟨-, ⟨log, bs, -, -, rfl⟩ | ⟨t, rfl⟩⟩
  · exact nofun
  · exact nofun

theorem faultless_readPartition (root : String) (logs : PartitionLogs) (e : DirectoryEntry) :
    Faultless (readPartition root logs e) := by
  unfold readPartition
  split
  · exact .pure logs
  · dsimp only
    split
    · exact (faultless_readRecordBatches _).bind fun batches => .pure _
    · exact fun w => ⟨_, _, rfl, nofun⟩

/-- No directory makes reading its partitions fault, in whatever order it is listed. -/
theorem faultless_readListed (arrange : List DirectoryEntry → List DirectoryEntry)
    (root : String) : Faultless (readListed arrange root) := by
  rw [readListed_eq]
  refine Faultless.bind (fun w => ?_) fun es => .foldlM (faultless_readPartition root) es []
  refine ⟨_, w, run_listed arrange root w, ?_⟩
  cases w.files.list root with
  | error e => exact nofun
  | ok nodes => exact nofun

/-! ### Which logs fault -/

/-- The metadata log below the root is read as these batches. -/
def Accepted (w : World) (root : String) (bs : List RecordBatch) : Prop :=
  ∃ log, w.files.read (join (join root metadataDirectoryName) logFileName) = .ok log ∧
    decodeLog log = .ok bs

theorem Accepted.unique {w : World} {root : String} {bs bs' : List RecordBatch}
    (h : Accepted w root bs) (h' : Accepted w root bs') : bs = bs' := by
  obtain ⟨log, read, decoded⟩ := h
  obtain ⟨log', read', decoded'⟩ := h'
  obtain rfl := Except.ok.inj (read.symm.trans read')
  exact Except.ok.inj (decoded.symm.trans decoded')

/-- How reading the metadata ends, whatever the log holds. -/
theorem ends_readClusterMetadata (root : String) (w : World) :
    Ends w (readClusterMetadata root : Tried InWorld _) fun v w' => w' = w ∧
      ((∃ found, v = .ok found) ↔
        ∃ bs, Accepted w root bs ∧ ∀ b ∈ bs, ∀ r ∈ b.records, Sound b r) ∧
      ∀ f, v = .error (.fault f) ↔ f = .addOverflow ∧ ∃ bs, Accepted w root bs ∧ Overflows bs := by
  obtain ⟨v, w', run, rfl, ⟨log, bs, read, decoded, rfl⟩ | ⟨t, rfl⟩⟩ :=
    ends_readRecordBatches (join root metadataDirectoryName) w
  · have accepted : Accepted w' root bs := ⟨log, read, decoded⟩
    -- there is no other list of batches to speak of
    have only (P : List RecordBatch → Prop) : (∃ bs', Accepted w' root bs' ∧ P bs') ↔ P bs :=
      ⟨fun ⟨_, other, h⟩ => accepted.unique other ▸ h, fun h => ⟨bs, accepted, h⟩⟩
    refine ⟨_, w', run_readClusterMetadata read decoded, rfl, ?_, fun f => ?_⟩
    · rw [only, ← payloads_ok_iff]
      exact Except.exists_map_eq_ok_iff
    · rw [only, ← payloads_fault_iff]
      exact Except.map_eq_error_iff
  · -- a log that is accepted would have been read
    have none (bs : List RecordBatch) : ¬ Accepted w' root bs := by
      rintro ⟨log, read, decoded⟩
      cases run.symm.trans (run_readRecordBatches read decoded)
    refine ⟨_, w', run_bind_of_error run, rfl, ⟨nofun, ?_⟩, fun f => ⟨nofun, ?_⟩⟩
    · rintro ⟨bs, accepted, -⟩
      exact absurd accepted (none bs)
    · rintro ⟨-, bs, accepted, -⟩
      exact absurd accepted (none bs)

/-- **Where offsets fault, and where they do not.**  Reading batches never faults, be it those of
one partition or of all, whatever the files hold.  Reading the cluster metadata succeeds exactly if
every record with a value has an offset of 64 bits and a payload for its value; it faults exactly if
the first record for which this fails has an offset out of range.  Of a batch in a log that is
accepted the last offset is told, unless the offset behind it is out of range, or the batch has no
records and begins at the very first offset.  A batch that begins further from both ends than any
delta reaches and any count of records is out of danger. -/
theorem offsets_overflow (root : String) (w : World) :
    (∀ directory, Faultless (readRecordBatches directory)) ∧
    (∀ arrange, Faultless (readListed arrange root)) ∧
    (∃ v, (readClusterMetadata root : Tried InWorld _).run w = .ok v w ∧
      ((∃ found, v = .ok found) ↔
        ∃ bs, Accepted w root bs ∧ ∀ b ∈ bs, ∀ r ∈ b.records, Sound b r) ∧
      ∀ f, v = .error (.fault f) ↔
        f = .addOverflow ∧ ∃ bs, Accepted w root bs ∧ Overflows bs) ∧
    ∀ log bs, decodeLog log = .ok bs → ∀ b ∈ bs,
      (∀ o, b.lastOffset = .ok o ↔
        b.baseOffset.toInt + b.records.length < 0x8000000000000000 ∧
          o.toInt = b.baseOffset.toInt + b.records.length - 1) ∧
      (∀ f, b.lastOffset = .error f ↔
        f = .addOverflow ∧ 0x8000000000000000 ≤ b.baseOffset.toInt + b.records.length ∨
          f = .subtractOverflow ∧ b.baseOffset.toInt = -0x8000000000000000 ∧ b.records = []) ∧
      (-0x7FFFFFFF80000000 ≤ b.baseOffset.toInt → b.baseOffset.toInt ≤ 0x7FFFFFFF80000000 →
        (∀ r ∈ b.records, Representable (b.offsetOf r)) ∧
          ∃ o, b.lastOffset = .ok o ∧
            o.toInt = b.baseOffset.toInt + b.records.length - 1) := by
  refine ⟨faultless_readRecordBatches, fun arrange => faultless_readListed arrange root, ?_,
    fun log bs decoded b hb => ⟨fun _ => RecordBatch.lastOffset_eq_ok_iff, fun f => ?_,
      fun low high => ⟨fun r _ => RecordBatch.representable_offsetOf low high r,
        RecordBatch.lastOffset_ok low high (fewRecords_of_decodeLog decoded b hb)⟩⟩⟩
  · obtain ⟨v, w', run, rfl, ends⟩ := ends_readClusterMetadata root w
    exact ⟨v, run, ends⟩
  · exact RecordBatch.lastOffset_eq_error_iff

/-- A value that tells of the end of a transaction. -/
def endOfTransaction : Bytes := [1, 24, 0, 0]

/-- A batch at the last offset that is out of danger, and one at the last offset of all, where there
is no room for its second record. -/
def lateBatches : List RecordBatch :=
  [{ baseOffset := 0x7FFFFFFF80000000, records := [.ofValue endOfTransaction] },
    { baseOffset := 0x7FFFFFFFFFFFFFFF
      records := [.ofValue endOfTransaction, .ofValue endOfTransaction] }]

/-- A root in which they are the metadata log. -/
def lateFiles : Tree :=
  ((Tree.emptyDirectory.put ["tmp", "work", "logs"] .directory).put
    ["tmp", "work", "logs", metadataDirectoryName] .directory).put
    ["tmp", "work", "logs", metadataDirectoryName, logFileName] (.file (encodeLog lateBatches))

theorem decodeLog_lateBatches :
    decodeLog (encodeLog lateBatches) = .ok (lateBatches.map RecordBatch.normalized) :=
  decodeLog_encodeLog (by decide +kernel)

/-- The first of the late batches has a last offset, and asking for that of the other faults. -/
theorem offsets_overflow_late :
    decodeLog (encodeLog lateBatches) = .ok (lateBatches.map RecordBatch.normalized) ∧
      ∃ early late, lateBatches.map RecordBatch.normalized = [early, late] ∧
        (-0x7FFFFFFF80000000 ≤ early.baseOffset.toInt ∧
          early.baseOffset.toInt ≤ 0x7FFFFFFF80000000) ∧
        (∀ r ∈ early.records, Representable (early.offsetOf r)) ∧
        (∃ o, early.lastOffset = .ok o ∧
          o.toInt = early.baseOffset.toInt + early.records.length - 1) ∧
        late.lastOffset = .error .addOverflow := by
  obtain ⟨-, -, -, batches⟩ := offsets_overflow "logs" {}
  have decoded := decodeLog_lateBatches
  have low : (-0x7FFFFFFF80000000 : Int) ≤ (0x7FFFFFFF80000000 : Int64).toInt := by decide
  have high : (0x7FFFFFFF80000000 : Int64).toInt ≤ 0x7FFFFFFF80000000 := by decide
  refine ⟨decoded, _, _, rfl, ⟨low, high⟩, ?_⟩
  obtain ⟨-, -, within⟩ := batches _ _ decoded _ List.mem_cons_self
  obtain ⟨-, faults, -⟩ := batches _ _ decoded _ (List.mem_cons_of_mem _ List.mem_cons_self)
  obtain ⟨records, last⟩ := within low high
  exact ⟨records, last, (faults .addOverflow).2 (.inl ⟨rfl, by decide⟩)⟩

/-- **Not all offsets of a log that is accepted are of 64 bits**, neither those of its records nor
the last ones of its batches, and not every metadata log can be read without a fault. -/
theorem not_offsets_representable :
    (¬ ∀ log bs, decodeLog log = .ok bs → ∀ b ∈ bs, ∀ r ∈ b.records, r.value.isSome →
      Representable (b.offsetOf r)) ∧
    (¬ ∀ log bs, decodeLog log = .ok bs → ∀ b ∈ bs,
      Representable (b.baseOffset.toInt + b.records.length - 1)) ∧
    ¬ ∀ root, Faultless (readClusterMetadata root) := by
  have decoded := decodeLog_lateBatches
  refine ⟨fun records => ?_, fun last => ?_, fun faultless => ?_⟩
  · exact absurd (records _ _ decoded) (by decide +kernel)
  · exact absurd (last _ _ decoded) (by decide +kernel)
  · have read : lateFiles.read (join (join "logs" metadataDirectoryName) logFileName) =
        .ok (encodeLog lateBatches) := by decide +kernel
    have faults : payloads (lateBatches.map RecordBatch.normalized) =
        .error (.fault .addOverflow) := by decide +kernel
    have done := run_readClusterMetadata (w := { files := lateFiles }) read decoded
    rw [faults] at done
    obtain ⟨v, w, run, fine⟩ := faultless "logs" { files := lateFiles }
    obtain ⟨rfl, -⟩ := EStateM.Result.ok.inj (done.symm.trans run)
    exact fine .addOverflow rfl

end LogDirectory
end BrokerExam
