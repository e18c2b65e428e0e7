/-
BrokerExam/Proofs/LogDirectory/Refusal.lean

Which plans are refused, and what for.  The check goes through the topics and their
partitions in order, with the names and ids that it has seen, and stops at the first
of them that is not fine: so what it tells is the first flaw of the plan.  A plan
that is refused is refused before anything else is done; what fails later fails for
a reason of the system.

Main results: `check_eq_error_iff`, that the check tells the first flaw, and
`generate_refuses`, which plans are refused.
-/
import BrokerExam.Proofs.LogDirectory.ReadBack

namespace BrokerExam

/-! ### Going through a list with what has been seen -/

section Seen

variable {α κ ε σ : Type}

/-- Going through a list fails at the first element where a step fails. -/
theorem foldlM_error_iff {f : σ → α → Except ε σ} {l : List α} {s : σ} {e : ε} :
    l.foldlM f s = .error e ↔ ∃ before a after s', l = before ++ a :: after ∧
      before.foldlM f s = .ok s' ∧ f s' a = .error e := by
  constructor
  · intro failed
    induction l generalizing s with
    | nil => cases failed
    | cons b l ih =>
      rw [List.foldlM_cons] at failed
      cases first : f s b with
      | error e' =>
        rw [first] at failed
        exact ⟨[], b, l, s, rfl, rfl, first.trans failed⟩
      | ok s₁ =>
        rw [first] at failed
        obtain ⟨before, a, after, s', rfl, fine, failed⟩ := ih failed
        refine ⟨b :: before, a, after, s', rfl, ?_, failed⟩
        rw [List.foldlM_cons, first]
        exact fine
  · rintro ⟨before, a, after, s', rfl, fine, failed⟩
    rw [List.foldlM_append, fine]
    show (a :: after).foldlM f s' = .error e
    rw [List.foldlM_cons, failed]
    rfl

/-- What has been seen in the end, where each step sees one key. -/
theorem seen_of_foldlM {f : List κ → α → Except ε (List κ)} (key : α → κ)
    (sees : ∀ {seen a seen'}, f seen a = .ok seen' → seen' = key a :: seen) {l : List α}
    {seen seen' : List κ} (fine : l.foldlM f seen = .ok seen') :
    ∀ k, k ∈ seen' ↔ k ∈ l.map key ∨ k ∈ seen := by
  induction l generalizing seen with
  | nil =>
    obtain rfl := Except.ok.inj fine
    exact fun k => (or_iff_right List.not_mem_nil).symm
  | cons a l ih =>
    rw [List.foldlM_cons] at fine
    obtain ⟨seen₁, first, rest⟩ := Except.bind_eq_ok_iff.1 fine
    obtain rfl := sees first
    intro k
    rw [ih rest, List.map_cons, List.mem_cons, List.mem_cons, or_left_comm, or_assoc]

end Seen

namespace LogDirectoryPlan

/-! ### The check, step by step -/

/-- Looks at one partition. -/
def seePartition (topic : String) (seen : List Int32) (p : PlannedPartition) :
    Except InvalidArgument (List Int32) :=
  if p.partitionId < 0 ∨ p.partitionId ∈ seen then .error (.badPartition p.partitionId topic)
  else .ok (p.partitionId :: seen)

/-- Looks at one topic. -/
def seeTopic (seen : List String) (t : PlannedTopic) : Except InvalidArgument (List String) :=
  if t.name = "" then .error .emptyTopicName
  else if t.name ∈ seen then .error (.duplicateTopic t.name)
  else do
    checkPartitions t.name t.partitions []
    return t.name :: seen

theorem checkPartitions_eq (topic : String) (ps : List PlannedPartition) (seen : List Int32) :
    checkPartitions topic ps seen = (ps.foldlM (seePartition topic) seen).map fun _ => () := by
  induction ps generalizing seen with
  | nil => rfl
  | cons p ps ih =>
    rw [checkPartitions, List.foldlM_cons, seePartition]
    split
    · rfl
    · exact ih (p.partitionId :: seen)

theorem checkTopics_eq (ts : List PlannedTopic) (seen : List String) :
    checkTopics ts seen = (ts.foldlM seeTopic seen).map fun _ => () := by
  induction ts generalizing seen with
  | nil => rfl
  | cons t ts ih =>
    rw [checkTopics, List.foldlM_cons, seeTopic]
    split
    · rfl
    · split
      · rfl
      · cases checkPartitions t.name t.partitions [] with
        | error e => rfl
        | ok u => exact ih (t.name :: seen)

theorem seen_of_seePartition {topic : String} {seen seen' : List Int32} {p : PlannedPartition}
    (fine : seePartition topic seen p = .ok seen') : seen' = p.partitionId :: seen := by
  rw [seePartition] at fine
  split at fine
  · cases fine
  · exact (Except.ok.inj fine).symm

theorem seen_of_seeTopic {seen seen' : List String} {t : PlannedTopic}
    (fine : seeTopic seen t = .ok seen') : seen' = t.name :: seen := by
  rw [seeTopic] at fine
  split at fine
  · cases fine
  · split at fine
    · cases fine
    · obtain ⟨_, -, done⟩ := Except.bind_eq_ok_iff.1 fine
      exact (Except.ok.inj done).symm

theorem map_eq_ok_iff {ε α : Type} {x : Except ε α} :
    (x.map fun _ => ()) = .ok () ↔ ∃ a, x = .ok a := by
  cases x with
  | error e => exact ⟨nofun, nofun⟩
  | ok a => exact iff_of_true rfl ⟨a, rfl⟩

theorem map_eq_error_iff {ε α : Type} {x : Except ε α} {e : ε} :
    (x.map fun _ => ()) = .error e ↔ x = .error e := by
  cases x with
  | error e' =>
    exact ⟨fun h => congrArg _ (Except.error.inj h), fun h => congrArg _ (Except.error.inj h)⟩
  | ok a => exact ⟨nofun, nofun⟩

/-! ### Flaws -/

/-- The partition is not fine behind those before it, which are. -/
def PartitionFlaw (t : PlannedTopic) (e : InvalidArgument) : Prop :=
  ∃ before p after, t.partitions = before ++ p :: after ∧
    (∀ q ∈ before, 0 ≤ q.partitionId) ∧ (before.map PlannedPartition.partitionId).Nodup ∧
    (p.partitionId < 0 ∨ p.partitionId ∈ before.map PlannedPartition.partitionId) ∧
    e = .badPartition p.partitionId t.name

/-- The topic is not fine behind topics with the names: first its own name is looked at, then its
partitions are. -/
inductive TopicFlaw (names : List String) (t : PlannedTopic) : InvalidArgument → Prop
  | unnamed (empty : t.name = "") : TopicFlaw names t .emptyTopicName
  | again (some : t.name ≠ "") (known : t.name ∈ names) : TopicFlaw names t (.duplicateTopic t.name)
  | partition {e : InvalidArgument} (some : t.name ≠ "") (new : t.name ∉ names)
      (flaw : PartitionFlaw t e) : TopicFlaw names t e

/-- The first thing wrong with the plan: all topics before are fine. -/
def FirstFlaw (plan : LogDirectoryPlan) (e : InvalidArgument) : Prop :=
  ∃ before t after, plan.topics = before ++ t :: after ∧ { plan with topics := before }.Valid ∧
    TopicFlaw (before.map PlannedTopic.name) t e

theorem checkPartitions_eq_error_iff {t : PlannedTopic} {e : InvalidArgument} :
    checkPartitions t.name t.partitions [] = .error e ↔ PartitionFlaw t e := by
  have sees {before : List PlannedPartition} {seen : List Int32}
      (fine : before.foldlM (seePartition t.name) [] = .ok seen) (id : Int32) :
      id ∈ seen ↔ id ∈ before.map PlannedPartition.partitionId :=
    (seen_of_foldlM PlannedPartition.partitionId seen_of_seePartition fine id).trans
      (or_iff_left List.not_mem_nil)
  rw [checkPartitions_eq, map_eq_error_iff, foldlM_error_iff]
  constructor
  · rintro ⟨before, p, after, seen, split, fine, failed⟩
    obtain ⟨each, once⟩ := checkPartitions_eq_ok_iff.1
      ((checkPartitions_eq t.name before []).trans (map_eq_ok_iff.2 ⟨seen, fine⟩))
    rw [seePartition] at failed
    split at failed
    · next bad =>
      rw [sees fine] at bad
      exact ⟨before, p, after, split, fun q hq => (each q hq).1, once, bad,
        (Except.error.inj failed).symm⟩
    · cases failed
  · rintro ⟨before, p, after, split, positive, once, bad, rfl⟩
    have checked : checkPartitions t.name before [] = .ok () :=
      checkPartitions_eq_ok_iff.2 ⟨fun q hq => ⟨positive q hq, List.not_mem_nil⟩, once⟩
    rw [checkPartitions_eq] at checked
    obtain ⟨seen, fine⟩ := map_eq_ok_iff.1 checked
    rw [← sees fine] at bad
    exact ⟨before, p, after, seen, split, fine, if_pos bad⟩

theorem seeTopic_eq_error_iff {seen : List String} {t : PlannedTopic} {e : InvalidArgument} :
    seeTopic seen t = .error e ↔ TopicFlaw seen t e := by
  rw [seeTopic]
  split
  · next empty =>
    constructor
    · intro told
      exact Except.error.inj told ▸ .unnamed empty
    · intro flaw
      cases flaw with
      | unnamed _ => rfl
      | again some _ => exact absurd empty some
      | partition some _ _ => exact absurd empty some
  · next some =>
    split
    · next known =>
      constructor
      · intro told
        exact Except.error.inj told ▸ .again some known
      · intro flaw
        cases flaw with
        | unnamed empty => exact absurd empty some
        | again _ _ => rfl
        | partition _ new _ => exact absurd known new
    · next new =>
      -- only the partitions can be at fault
      have told : (checkPartitions t.name t.partitions [] >>= fun _ => .ok (t.name :: seen)) =
          .error e ↔ checkPartitions t.name t.partitions [] = .error e := by
        cases checkPartitions t.name t.partitions [] with
        | error e' => exact ⟨fun h => congrArg _ (Except.error.inj h),
            fun h => congrArg _ (Except.error.inj h)⟩
        | ok u => exact ⟨nofun, nofun⟩
      refine told.trans (checkPartitions_eq_error_iff.trans ⟨.partition some new, fun flaw => ?_⟩)
      cases flaw with
      | unnamed empty => exact absurd empty some
      | again _ known => exact absurd known new
      | partition _ _ flaw => exact flaw

theorem TopicFlaw.congr {names names' : List String} (same : ∀ n, n ∈ names ↔ n ∈ names')
    {t : PlannedTopic} {e : InvalidArgument} (flaw : TopicFlaw names t e) :
    TopicFlaw names' t e := by
  cases flaw with
  | unnamed empty => exact .unnamed empty
  | again some known => exact .again some ((same _).1 known)
  | partition some new flaw => exact .partition some (fun mem => new ((same _).2 mem)) flaw

/-- **The check tells the first flaw**, in the order of the plan. -/
theorem check_eq_error_iff {plan : LogDirectoryPlan} {e : InvalidArgument} :
    plan.check = .error e ↔ plan.FirstFlaw e := by
  have sees {before : List PlannedTopic} {seen : List String}
      (fine : before.foldlM seeTopic [] = .ok seen) (name : String) :
      name ∈ seen ↔ name ∈ before.map PlannedTopic.name :=
    (seen_of_foldlM PlannedTopic.name seen_of_seeTopic fine name).trans
      (or_iff_left List.not_mem_nil)
  have checked (before : List PlannedTopic) :
      (∃ seen, before.foldlM seeTopic [] = .ok seen) ↔ { plan with topics := before }.Valid := by
    rw [← check_eq_ok_iff, check, checkTopics_eq, map_eq_ok_iff]
  rw [check, checkTopics_eq, map_eq_error_iff, foldlM_error_iff]
  constructor
  · rintro ⟨before, t, after, seen, split, fine, failed⟩
    exact ⟨before, t, after, split, (checked before).1 ⟨seen, fine⟩,
      (seeTopic_eq_error_iff.1 failed).congr (sees fine)⟩
  · rintro ⟨before, t, after, split, valid, flaw⟩
    obtain ⟨seen, fine⟩ := (checked before).2 valid
    exact ⟨before, t, after, seen, split, fine,
      seeTopic_eq_error_iff.2 (flaw.congr fun name => (sees fine name).symm)⟩

/-- Something is wrong with the plan: a topic has no name, or two have one name, or a topic has a
partition whose id is negative, or two with one id. -/
def Flawed (plan : LogDirectoryPlan) : Prop :=
  (∃ t ∈ plan.topics, t.name = "") ∨ ¬ (plan.topics.map PlannedTopic.name).Nodup ∨
    ∃ t ∈ plan.topics, (∃ p ∈ t.partitions, p.partitionId < 0) ∨
      ¬ (t.partitions.map PlannedPartition.partitionId).Nodup

theorem not_valid_iff {plan : LogDirectoryPlan} : ¬ plan.Valid ↔ plan.Flawed := by
  constructor
  · intro invalid
    by_contra fine
    simp only [Flawed, not_or, not_exists, not_and, Decidable.not_not, Int32.not_lt] at fine
    obtain ⟨named, topics, each⟩ := fine
    exact invalid ⟨named, topics, fun t ht => (each t ht).1, fun t ht => (each t ht).2⟩
  · rintro (⟨t, ht, empty⟩ | again | ⟨t, ht, ⟨p, hp, negative⟩ | again⟩) valid
    · exact valid.named t ht empty
    · exact again valid.topics
    · exact absurd negative (Int32.not_lt.2 (valid.positive t ht p hp))
    · exact again (valid.partitions t ht)

/-- A plan is flawed exactly if it has a first flaw. -/
theorem exists_firstFlaw_iff {plan : LogDirectoryPlan} :
    (∃ e, plan.FirstFlaw e) ↔ plan.Flawed := by
  rw [← not_valid_iff, ← check_eq_ok_iff]
  simp only [← check_eq_error_iff]
  cases plan.check with
  | error e => exact iff_of_true ⟨e, rfl⟩ nofun
  | ok u => exact iff_of_false nofun fun refused => refused rfl

end LogDirectoryPlan

/-! ### Failures of the system -/

namespace LogDirectory

open Rehearsal Files

/-- Whatever fails in it is something that was attempted and that the system refused. -/
def FailsBySystem {α : Type} (x : Tried InWorld α) : Prop :=
  ∀ w failure w', x.run w = .ok (.error failure) w' →
    ∃ what e, failure = .trouble ⟨[what], .system e⟩

namespace FailsBySystem

variable {α β : Type} {x : Tried InWorld α} {f : α → Tried InWorld β}

theorem pure (a : α) : FailsBySystem (Pure.pure a) := by
  intro w failure w' run
  cases run

theorem bind (hx : FailsBySystem x) (hf : ∀ a, FailsBySystem (f a)) : FailsBySystem (x >>= f) := by
  intro w failure w' run
  obtain ⟨v, w₁, first, second⟩ := ok_of_bind run
  cases v with
  | error e =>
    obtain ⟨same, -⟩ := EStateM.Result.ok.inj second
    obtain rfl := Except.error.inj same
    exact hx w e w₁ first
  | ok a => exact hf a w₁ failure w' second

theorem mapM {f : α → Tried InWorld β} (hf : ∀ a, FailsBySystem (f a)) (l : List α) :
    FailsBySystem (l.mapM f) := by
  induction l with
  | nil => exact pure []
  | cons a l ih =>
    rw [List.mapM_cons]
    exact (hf a).bind fun b => ih.bind fun bs => pure (b :: bs)

theorem lift (y : InWorld α) : FailsBySystem (ExceptT.lift y) := by
  intro w failure w' run
  obtain ⟨a, -, same⟩ := ok_of_map run
  cases same

theorem attempt (what : Attempt) (op : InWorld (Except SystemError α)) :
    FailsBySystem (BrokerExam.attempt what op) := by
  intro w failure w' run
  obtain ⟨r, w₁, -, second⟩ := ok_of_bind run
  obtain ⟨same, -⟩ := EStateM.Result.ok.inj second
  cases r with
  | error e => exact ⟨what, e, (Except.error.inj same).symm⟩
  | ok a => cases same

theorem tell (e : Entry) : FailsBySystem (Journal.record e) := lift _

theorem writeText (what : String → Attempt) (path text : String) :
    FailsBySystem (LogDirectory.writeText what path text) := attempt _ _

theorem writeServerProperties (plan : LogDirectoryPlan) :
    FailsBySystem (LogDirectory.writeServerProperties plan) := by
  have written := (writeText .writeServerProperties plan.serverPropertiesPath
    (serverProperties plan.root)).bind fun _ =>
      tell { level := .debug, text := s!"Wrote server properties to {plan.serverPropertiesPath}" }
  unfold LogDirectory.writeServerProperties
  dsimp only
  cases parent? plan.serverPropertiesPath with
  | none => exact written
  | some parent => exact (attempt _ _).bind fun _ => written

theorem writeMetaProperties (root : String) :
    FailsBySystem (LogDirectory.writeMetaProperties root) :=
  (lift _).bind fun _ => (writeText _ _ _).bind fun _ => tell _

theorem writeCleanShutdown (root : String) :
    FailsBySystem (LogDirectory.writeCleanShutdown root) :=
  (writeText _ _ _).bind fun _ => tell _

theorem writePartition (directory : String) (topic : Uuid) (p : PlannedPartition) :
    FailsBySystem (LogDirectory.writePartition directory topic p) :=
  (attempt _ _).bind fun _ => (writeText _ _ _).bind fun _ => (attempt _ _).bind fun _ =>
    (tell _).bind fun _ => pure _

theorem writeTopic (plan : LogDirectoryPlan) (t : PlannedTopic) :
    FailsBySystem (LogDirectory.writeTopic plan t) :=
  (mapM (fun _ => writePartition _ _ _) _).bind fun _ => (tell _).bind fun _ => pure _

theorem writeMetadataPartition (directory : String) (topics : List PlannedTopic) :
    FailsBySystem (LogDirectory.writeMetadataPartition directory topics) :=
  (attempt _ _).bind fun _ => (attempt _ _).bind fun _ => (writeText _ _ _).bind fun _ => tell _

theorem fill (plan : LogDirectoryPlan) : FailsBySystem (LogDirectory.fill plan) :=
  (attempt _ _).bind fun _ => (writeServerProperties plan).bind fun _ =>
    (writeMetaProperties _).bind fun _ => (writeCleanShutdown _).bind fun _ =>
    (mapM (writeTopic plan) _).bind fun _ => (writeMetadataPartition _ _).bind fun _ =>
    (tell _).bind fun _ => pure _

/-- A plan that is not refused can only fail for a reason of the system. -/
theorem generate {plan : LogDirectoryPlan} (checked : plan.check = .ok ()) :
    FailsBySystem (LogDirectory.generate plan) := by
  rw [generate_eq checked]
  refine (lift _).bind fun there => ?_
  cases there with
  | false => exact fill plan
  | true => exact (attempt _ _).bind fun _ => fill plan

end FailsBySystem

/-! ### Refusal -/

/-- Making the log directory, the plan is refused: there is an invalid argument at the root of the
failure. -/
def Refused (plan : LogDirectoryPlan) (w : World) (e : InvalidArgument) : Prop :=
  ∃ attempts w', (generate plan : Tried InWorld GeneratedLogDirectory).run w =
    .ok (.error (.trouble ⟨attempts, .argument e⟩)) w'

/-- What is refused is refused at once, over any storage. -/
theorem generate_eq_fail {m : Type → Type} [Monad m] [LawfulMonad m] [Journal m] [Storage m]
    [Clock m] {plan : LogDirectoryPlan} {e : InvalidArgument} (refused : plan.check = .error e) :
    (generate plan : Tried m GeneratedLogDirectory) = fail (.argument e) := by
  rw [generate, refused]
  exact pure_bind (Except.error (Failure.trouble { cause := .argument e })) _

theorem refused_iff {plan : LogDirectoryPlan} {w : World} {e : InvalidArgument} :
    Refused plan w e ↔ plan.check = .error e := by
  constructor
  · rintro ⟨attempts, w', run⟩
    cases checked : plan.check with
    | error e' =>
      rw [generate_eq_fail checked] at run
      obtain ⟨same, -⟩ := EStateM.Result.ok.inj run
      cases same
      rfl
    | ok u =>
      obtain ⟨what, e', same⟩ := FailsBySystem.generate checked w _ w' run
      cases same
  · intro refused
    exact ⟨[], w, by rw [generate_eq_fail refused]; rfl⟩

/-- **A flawed plan is refused, and no other one is**, whatever files there are.  What is told is
the first flaw; and nothing has happened then, to the files or to anything else, since over any
storage all that is done is to fail. -/
theorem generate_refuses (plan : LogDirectoryPlan) (w : World) :
    ((∃ e, Refused plan w e) ↔ plan.Flawed) ∧ (∀ e, Refused plan w e ↔ plan.FirstFlaw e) ∧
      ∀ e, Refused plan w e →
        (generate plan : Tried InWorld GeneratedLogDirectory).run w =
          .ok (.error (.trouble ⟨[], .argument e⟩)) w ∧
        ∀ (m : Type → Type) [Monad m] [LawfulMonad m] [Journal m] [Storage m] [Clock m],
          (generate plan : Tried m GeneratedLogDirectory) = fail (.argument e) := by
  simp only [refused_iff, LogDirectoryPlan.check_eq_error_iff,
    LogDirectoryPlan.exists_firstFlaw_iff, true_and, implies_true]
  intro e first
  have refused := LogDirectoryPlan.check_eq_error_iff.2 first
  refine ⟨?_, fun m => generate_eq_fail refused⟩
  rw [generate_eq_fail refused]
  rfl

/-- A plan in which one topic has a partition twice, and a later one has no name; that two topics
have partitions of the same id is fine. -/
def flawedPlan : LogDirectoryPlan where
  root := "logs"
  serverPropertiesPath := "server.properties"
  topics := [⟨"a", ⟨1⟩, [⟨0, ["x"]⟩, ⟨1, []⟩]⟩, ⟨"b", ⟨2⟩, [⟨1, []⟩, ⟨0, []⟩, ⟨1, ["y"]⟩]⟩,
    ⟨"", ⟨3⟩, []⟩]

/-- The repeated partition is told, and what was in the root is still there. -/
theorem generate_refuses_repeated :
    Refused flawedPlan { files := staleFiles } (.badPartition 1 "b") ∧ flawedPlan.Flawed ∧
      (generate flawedPlan : Tried InWorld GeneratedLogDirectory).run { files := staleFiles } =
        .ok (.error (.trouble ⟨[], .argument (.badPartition 1 "b")⟩)) { files := staleFiles } := by
  have refused : Refused flawedPlan { files := staleFiles } (.badPartition 1 "b") :=
    refused_iff.2 (by decide)
  obtain ⟨flawed, -, unchanged⟩ := generate_refuses flawedPlan { files := staleFiles }
  exact ⟨refused, flawed.1 ⟨_, refused⟩, (unchanged _ refused).1⟩

end LogDirectory
end BrokerExam
