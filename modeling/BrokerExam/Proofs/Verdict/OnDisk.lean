/-
BrokerExam/Proofs/Verdict/OnDisk.lean

When the logs on disk pass: each file holds the bytes that the batches would be
written as, and nothing else.  Looking at them changes none of them.

Main result: `run_checkLogs`.
-/
import BrokerExam.Proofs.Batch.Basic
import BrokerExam.Rehearsal.World
import BrokerExam.Verdict.OnDisk

namespace BrokerExam

open Rehearsal

namespace ExpectedLog

/-- Where the log is. -/
def path (plan : LogDirectoryPlan) (log : ExpectedLog) : String :=
  Files.join (plan.partitionDirectory log.topic log.partition) LogDirectory.logFileName

/-- The file holds the batches and nothing else. -/
def OnDisk (plan : LogDirectoryPlan) (files : Files.Tree) (log : ExpectedLog) : Prop :=
  files.read (log.path plan) = .ok (encodeLog log.recordBatches)

/-- The verdict on what the file holds. -/
def verdict (plan : LogDirectoryPlan) (files : Files.Tree) (log : ExpectedLog) :
    Except Failure Unit :=
  match files.read (log.path plan) with
  | .error e =>
    let failure := Failure.trouble ⟨[.readLog (log.path plan)], .system e⟩
    .error (.objection (.missingLog (log.path plan) failure.message))
  | .ok actual =>
    let wanted := encodeLog log.recordBatches
    if actual = wanted then .ok ()
    else .error (.objection (.differentLog (log.path plan) (differingBytes wanted actual)))

theorem verdict_eq_ok_iff {plan : LogDirectoryPlan} {files : Files.Tree} {log : ExpectedLog} :
    log.verdict plan files = .ok () ↔ log.OnDisk plan files := by
  unfold verdict OnDisk
  split
  · next failed =>
    rw [failed]
    exact iff_of_false (fun h => by cases h) fun h => by cases h
  · next actual read =>
    rw [read, Except.ok.injEq]
    dsimp only
    split
    · next same => exact iff_of_true rfl same
    · next differs => exact iff_of_false (fun h => by cases h) differs

end ExpectedLog

theorem run_info (text : String) (w : World) :
    ∃ w', (info text : Tried InWorld Unit).run w = .ok (.ok ()) w' ∧ w'.files = w.files :=
  ⟨_, rfl, rfl⟩

/-- Looking at a log comes to the verdict, and leaves the files alone. -/
theorem run_checkLog (plan : LogDirectoryPlan) (log : ExpectedLog) (w : World) :
    ∃ w', (checkLog plan log : Tried InWorld Unit).run w = .ok (log.verdict plan w.files) w' ∧
      w'.files = w.files := by
  let directory := plan.partitionDirectory log.topic log.partition
  have read : (outcome (LogDirectory.readLogFile directory) : Tried InWorld _).run w =
      .ok (.ok ((w.files.read (log.path plan)).mapError fun e =>
        .trouble ⟨[.readLog (log.path plan)], .system e⟩)) w := rfl
  simp only [checkLog, ExceptT.run_bind]
  rw [bind_of_ok read]
  unfold ExpectedLog.verdict
  rcases w.files.read (log.path plan) with e | actual
  · exact ⟨w, rfl, rfl⟩
  · dsimp only [Except.mapError]
    split
    · exact run_info _ w
    · exact ⟨w, rfl, rfl⟩

/-- **The logs pass** exactly if all are on disk. -/
theorem run_checkLogs (plan : LogDirectoryPlan) (logs : List ExpectedLog) (w : World) :
    ∃ v w', (checkLogs plan logs : Tried InWorld Unit).run w = .ok v w' ∧
      (v = .ok () ↔ ∀ log ∈ logs, log.OnDisk plan w.files) := by
  unfold checkLogs
  induction logs generalizing w with
  | nil => exact ⟨.ok (), w, rfl, iff_of_true rfl fun log hl => absurd hl List.not_mem_nil⟩
  | cons log logs ih =>
    obtain ⟨w₁, first, files⟩ := run_checkLog plan log w
    rw [List.forM_eq_forM] at ih ⊢
    rw [List.forM_cons, ExceptT.run_bind, bind_of_ok first, List.forall_mem_cons,
      ← ExpectedLog.verdict_eq_ok_iff]
    rcases log.verdict plan w.files with failure | ⟨⟩
    · -- the first failure is the outcome, whatever the other logs are like
      exact ⟨.error failure, w₁, rfl, iff_of_false (fun h => by cases h) fun h => by cases h.1⟩
    · obtain ⟨v, w₂, others, passes⟩ := ih w₁
      rw [files] at passes
      exact ⟨v, w₂, others, passes.trans (and_iff_right rfl).symm⟩

end BrokerExam
