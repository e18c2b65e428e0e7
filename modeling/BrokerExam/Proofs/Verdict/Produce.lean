/-
BrokerExam/Proofs/Verdict/Produce.lean

What an answer to Produce must be like to pass.  The checks count the topics that
were answered and look each of the expected ones up by its name, and the same with
the partitions of a topic and their ids.  Where what is expected has no name and no
id twice, that is exact: with as many entries as are expected and each expected one
among them, there is no room for one that is not, or for one that comes twice
(`matched_iff`).  In which order they come is not asked.

Main results: `passes_checks_iff`, `fields_fine_iff`, `verdict_eq_ok_iff` and
`judged_upToOrder`.
-/
import Mathlib.Data.List.Forall2
import Mathlib.Data.List.Nodup
import Mathlib.Data.List.Perm.Subperm
import Mathlib.Tactic.MkIffOfInductiveProp
import BrokerExam.Proofs.Message.RoundTrip
import BrokerExam.Proofs.Verdict.CorrelationId
import BrokerExam.Proofs.Verdict.Passing

namespace BrokerExam

open Rehearsal

/-! ### Entries with keys -/

section Keys

variable {α β κ : Type} [DecidableEq κ] {key : α → κ} {wanted : β → κ} {as : List α}
  {bs : List β} {P : β → α → Prop}

theorem of_find_key {k : κ} {a : α} (h : as.find? (fun a => decide (key a = k)) = some a) :
    a ∈ as ∧ key a = k :=
  ⟨List.mem_of_find?_eq_some h, by simpa only [decide_eq_true_eq] using List.find?_some h⟩

omit [DecidableEq κ] in
/-- As many entries as are wanted, and each wanted one among them: there are no others. -/
theorem perm_of_wanted (distinct : (bs.map wanted).Nodup) (length : as.length = bs.length)
    (each : ∀ b ∈ bs, wanted b ∈ as.map key) : (as.map key).Perm (bs.map wanted) := by
  have among : bs.map wanted ⊆ as.map key := by
    intro k hk
    obtain ⟨b, hb, rfl⟩ := List.mem_map.1 hk
    exact each b hb
  have counts : (as.map key).length = (bs.map wanted).length := by
    rw [List.length_map, List.length_map, length]
  exact ((List.subperm_of_subset distinct among).perm_of_length_le (Nat.le_of_eq counts)).symm

/-- To count the entries and look the wanted ones up is to compare the keys up to order, and each
entry with the wanted one of its key. -/
theorem matched_iff (distinct : (bs.map wanted).Nodup) :
    (as.length = bs.length ∧
      ∀ b ∈ bs, ∃ a, as.find? (fun a => decide (key a = wanted b)) = some a ∧ P b a) ↔
    (as.map key).Perm (bs.map wanted) ∧ ∀ a ∈ as, ∀ b ∈ bs, key a = wanted b → P b a := by
  constructor
  · rintro ⟨length, each⟩
    have found {b : β} (hb : b ∈ bs) : ∃ a ∈ as, key a = wanted b ∧ P b a := by
      obtain ⟨a, look, holds⟩ := each b hb
      exact ⟨a, (of_find_key look).1, (of_find_key look).2, holds⟩
    have perm : (as.map key).Perm (bs.map wanted) := by
      refine perm_of_wanted distinct length fun b hb => ?_
      obtain ⟨a, ha, same, -⟩ := found hb
      exact List.mem_map.2 ⟨a, ha, same⟩
    refine ⟨perm, fun a ha b hb same => ?_⟩
    -- no other entry has the key, so that the one that was found is this one
    obtain ⟨a', ha', same', holds⟩ := found hb
    obtain rfl := List.inj_on_of_nodup_map (perm.nodup_iff.2 distinct) ha' ha
      (same'.trans same.symm)
    exact holds
  · rintro ⟨perm, each⟩
    refine ⟨?_, fun b hb => ?_⟩
    · have length := perm.length_eq
      rwa [List.length_map, List.length_map] at length
    · obtain ⟨a, ha, same⟩ := List.mem_map.1 (perm.mem_iff.2 (List.mem_map_of_mem hb))
      cases look : as.find? fun a => decide (key a = wanted b) with
      | none => exact absurd (decide_eq_true same) (List.find?_eq_none.1 look a ha)
      | some a' =>
        obtain ⟨among, here⟩ := of_find_key look
        exact ⟨a', rfl, each a' among b hb here⟩

end Keys

namespace ProduceExpectation

open Check

variable {e : ProduceExpectation} {r : Response ProduceResponseBody}

/-! ### The checks across fields -/

/-- No topic is expected twice, and no partition of a topic. -/
structure Distinct (e : ProduceExpectation) : Prop where
  topics : (e.topics.map (·.name)).Nodup
  partitions : ∀ wanted ∈ e.topics, (wanted.partitions.map (·.id)).Nodup

/-- What is asked of a partition that is expected. -/
@[mk_iff]
structure Agrees (e : ProduceExpectation) (wanted : ExpectedProducePartition)
    (p : ProducedPartition) : Prop where
  errorCode : p.errorCode = wanted.errorCode
  baseOffset : p.baseOffset = wanted.baseOffset
  logStartOffset : p.logStartOffset = wanted.logStartOffset
  logAppendTime : ∀ time, e.logAppendTimeMs = some time → p.logAppendTimeMs = time

/-- What is asked of a topic that is expected: its partitions in any order, and no others. -/
@[mk_iff]
structure Answers (e : ProduceExpectation) (wanted : ExpectedProduceTopic) (t : ProducedTopic) :
    Prop where
  ids : (t.partitions.map (·.id)).Perm (wanted.partitions.map (·.id))
  agrees : ∀ p ∈ t.partitions, ∀ q ∈ wanted.partitions, p.id = q.id → e.Agrees q p

/-- What is asked of the topics: those that are expected in any order, and no others. -/
@[mk_iff]
structure Holds (e : ProduceExpectation) (topics : List ProducedTopic) : Prop where
  names : (topics.map (·.name)).Perm (e.topics.map (·.name))
  answers : ∀ t ∈ topics, ∀ wanted ∈ e.topics, t.name = wanted.name → e.Answers wanted t

instance (wanted : ExpectedProducePartition) (p : ProducedPartition) :
    Decidable (e.Agrees wanted p) :=
  have : Decidable (∀ time, e.logAppendTimeMs = some time → p.logAppendTimeMs = time) :=
    Option.decidableForallMem e.logAppendTimeMs
  decidable_of_iff' _ (agrees_iff e wanted p)

instance (wanted : ExpectedProduceTopic) (t : ProducedTopic) : Decidable (e.Answers wanted t) :=
  decidable_of_iff' _ (answers_iff e wanted t)

instance (topics : List ProducedTopic) : Decidable (e.Holds topics) :=
  decidable_of_iff' _ (holds_iff e topics)

theorem passes_timeChecks {place : String} {expected : Option Int64} {actual : Int64} :
    Passes (timeChecks place expected actual) ↔ ∀ time, expected = some time → actual = time := by
  cases expected with
  | none =>
    refine ⟨fun _ time none => ?_, fun _ => passes_nil⟩
    cases none
  | some time =>
    simp only [timeChecks, passes_demand, passes_remark, passes_nil, and_true, decide_eq_true_eq,
      Option.some.injEq, forall_eq']

theorem passes_partitionChecks {topic : String} {actual : List ProducedPartition}
    {wanted : ExpectedProducePartition} :
    Passes (e.partitionChecks topic actual wanted) ↔
      ∃ p, actual.find? (fun p => decide (p.id = wanted.id)) = some p ∧ e.Agrees wanted p := by
  rw [partitionChecks]
  split
  · next none => simp [failed, none]
  · next p found =>
    simp only [found, Option.some.injEq, exists_eq_left', passes_append, passes_demand,
      passes_remark, passes_nil, passes_timeChecks, and_true, decide_eq_true_eq]
    constructor
    · rintro ⟨⟨⟨errorCode, baseOffset⟩, time⟩, start⟩
      exact ⟨errorCode, baseOffset, start, time⟩
    · rintro ⟨errorCode, baseOffset, start, time⟩
      exact ⟨⟨⟨errorCode, baseOffset⟩, time⟩, start⟩

theorem passes_topicChecks {actual : List ProducedTopic} {wanted : ExpectedProduceTopic}
    (distinct : (wanted.partitions.map (·.id)).Nodup) :
    Passes (e.topicChecks actual wanted) ↔
      ∃ t, actual.find? (fun t => decide (t.name = wanted.name)) = some t ∧
        e.Answers wanted t := by
  rw [topicChecks]
  split
  · next none => simp [failed, none]
  · next t found =>
    simp only [found, Option.some.injEq, exists_eq_left', passes_append, passes_remark,
      passes_demand, passes_nil, and_true, decide_eq_true_eq, List.flatMap_def, passes_flatten,
      List.forall_mem_map, passes_partitionChecks]
    rw [matched_iff distinct, answers_iff]

/-- **The checks are exact** up to order. -/
theorem passes_checks_iff (distinct : e.Distinct) :
    Passes (e.checks r) ↔ e.Holds r.body.topics := by
  have each : (∀ wanted ∈ e.topics, Passes (e.topicChecks r.body.topics wanted)) ↔
      ∀ wanted ∈ e.topics, ∃ t,
        r.body.topics.find? (fun t => decide (t.name = wanted.name)) = some t ∧
          e.Answers wanted t :=
    forall₂_congr fun wanted hw => passes_topicChecks (distinct.partitions wanted hw)
  simp only [checks, passes_append, passes_remark, passes_demand, passes_nil, and_true,
    decide_eq_true_eq, List.flatMap_def, passes_flatten, List.forall_mem_map]
  rw [each, matched_iff distinct.topics, holds_iff]

/-! ### The checks of single fields -/

/-- The correlation id is the one expected, and nothing was held back. -/
structure Heads (e : ProduceExpectation) (r : Response ProduceResponseBody) : Prop where
  correlationId : r.header.correlationId = e.correlationId
  throttleTime : r.body.throttleTimeMs = 0

end ProduceExpectation

namespace ProduceExpectation

variable {e : ProduceExpectation} {r : Response ProduceResponseBody}

/-- What is written for an answer to Produce. -/
theorem encoding_eq (r : Response ProduceResponseBody) : r.encoding =
    Encoding.scope "ProduceResponse"
      (Encoding.scope "Header" (Encoding.leaf "CorrelationID" (.int32 r.header.correlationId) ++
        (Encoding.emptyTagBuffer ++ [])) ++
      Encoding.scope "Body"
        (((Codec.compactArray "Topics" ProducedTopic.codec).write r.body.topics).2 ++
          (Encoding.leaf "ThrottleTimeMs" (.int32 r.body.throttleTimeMs) ++
            (Encoding.emptyTagBuffer ++ [])))) :=
  Response.encoding_eq r

/-- **The fields are fine** exactly if the two are that have only one value to be fine. -/
theorem fields_fine_iff
    (dotless : ∀ f ∈ r.encoding.fields, ∀ s ∈ f.path.segments, '.' ∉ s.toList) :
    (∀ f ∈ r.encoding.fields, Verdict.complaint? e f = .ok none) ↔ e.Heads r := by
  have correlationId :
      Expectation.Allows e ⟨["ProduceResponse", "Header", "CorrelationID"],
        .int32 r.header.correlationId⟩ ↔ r.header.correlationId = e.correlationId := by
    rw [Expectation.allows_iff rfl (by decide) (by decide) rfl rfl, Value.int32.injEq]
  have throttleTime :
      Expectation.Allows e ⟨["ProduceResponse", "Body", "ThrottleTimeMs"],
        .int32 r.body.throttleTimeMs⟩ ↔ r.body.throttleTimeMs = 0 := by
    rw [Expectation.allows_iff rfl (by decide) (by decide) rfl rfl, Value.int32.injEq]
  rw [Expectation.fields_fine_iff]
  constructor
  · intro allowed
    rw [encoding_eq] at allowed
    exact ⟨correlationId.1 (allowed _ (by simp [Encoding.scope, Encoding.leaf])),
      throttleTime.1 (allowed _ (by simp [Encoding.scope, Encoding.leaf]))⟩
  · intro heads l hl
    obtain ⟨f, hf, path, -⟩ := Encoding.field_of_mem hl 0
    have dotless := dotless f hf
    rw [path] at dotless
    rw [encoding_eq] at hl
    simp only [Encoding.scope, Encoding.leaf, Encoding.emptyTagBuffer, List.map_append,
      List.map_cons, List.map_nil, List.map_map, List.append_nil, List.mem_append, List.mem_cons,
      List.mem_map, List.not_mem_nil, or_false] at hl
    -- the leaves in the order of the wire; `inTopics` is any of those in the topics
    rcases hl with (rfl | rfl) | ⟨inTopics, hl, rfl⟩ | rfl | rfl
    · exact correlationId.2 heads.correlationId
    · exact Expectation.allows_tagBuffer ["ProduceResponse", "Header"] _
    · obtain ⟨segment, rest, below⟩ := Encoding.path_of_mem_compactArray hl
      refine Expectation.allows_anything (List.cons_ne_nil _ _) dotless ?_
      show (Rule.demands _).first ("ProduceResponse" :: "Body" :: inTopics.path) = _
      rw [below]
      rfl
    · exact throttleTime.2 heads.throttleTime
    · exact Expectation.allows_tagBuffer ["ProduceResponse", "Body"] _

/-! ### Verdicts -/

/-- **The verdict on an answer** that was written whole. -/
theorem verdict_eq_ok_iff (distinct : e.Distinct) (short : r.encode.length < 0x80000000)
    {ignoreSize : Bool} {r' : Response ProduceResponseBody} :
    Verdict.verdict e ⟨frame r.encode⟩ ignoreSize = .ok r' ↔
      r' = r ∧ e.Heads r ∧ e.Holds r.body.topics := by
  have addressable := Nat.lt_trans short (by decide : 0x80000000 < 0x8000000000000000)
  have same : r.writtenBack = r := by rw [Response.writtenBack, ProduceResponseBody.codec_write_fst]
  have dotless := Expectation.covers_produce.dotless_encoding
    (Response.recordsFields Codec.Lawful.on_all trivial addressable)
  rw [Verdict.verdict_encode_eq_ok_iff Expectation.covers_produce inferInstance same addressable,
    fields_fine_iff dotless]
  refine and_congr_right fun _ => ?_
  rw [and_iff_right fun _ => short]
  exact and_congr_right fun _ => passes_checks_iff distinct

end ProduceExpectation

/-! ### The order of the entries -/

/-- The topic with its partitions in another order. -/
structure ProducedTopic.Rearranged (t t' : ProducedTopic) : Prop where
  name : t.name = t'.name
  partitions : t.partitions.Perm t'.partitions

/-- The body with its topics in another order, and the partitions of each topic. -/
structure ProduceResponseBody.Rearranged (body body' : ProduceResponseBody) : Prop where
  throttleTime : body.throttleTimeMs = body'.throttleTimeMs
  topics : ∃ ts, body.topics.Perm ts ∧ List.Forall₂ ProducedTopic.Rearranged ts body'.topics

section Rearranging

variable {ts ts' : List ProducedTopic}

theorem ProducedTopic.Rearranged.symm {t t' : ProducedTopic} (h : t.Rearranged t') :
    t'.Rearranged t :=
  ⟨h.name.symm, h.partitions.symm⟩

theorem ProducedTopic.Rearranged.each_symm (h : List.Forall₂ ProducedTopic.Rearranged ts ts') :
    List.Forall₂ ProducedTopic.Rearranged ts' ts :=
  List.Forall₂.flip (h.imp fun _ _ same => same.symm)

/-- What is the same for topics that differ in the order of their partitions only. -/
theorem ProducedTopic.Rearranged.map_eq {γ : Type} {f : ProducedTopic → γ}
    (h : List.Forall₂ ProducedTopic.Rearranged ts ts')
    (same : ∀ t t', t.Rearranged t' → f t = f t') : ts.map f = ts'.map f := by
  induction h with
  | nil => rfl
  | cons here _ ih => rw [List.map_cons, List.map_cons, same _ _ here, ih]

theorem ProducedTopic.Rearranged.of_mem {t' : ProducedTopic}
    (h : List.Forall₂ ProducedTopic.Rearranged ts ts') (ht : t' ∈ ts') :
    ∃ t ∈ ts, t.Rearranged t' := by
  induction h with
  | nil => cases ht
  | cons here _ ih =>
    rcases List.mem_cons.1 ht with rfl | ht
    · exact ⟨_, List.mem_cons_self, here⟩
    · obtain ⟨t, among, same⟩ := ih ht
      exact ⟨t, List.mem_cons_of_mem _ among, same⟩

end Rearranging

/-- The bytes of an array are those of its elements behind their number. -/
theorem Codec.bytes_compactArray {α β : Type} (name : String) (element : Codec α β) (as : List α) :
    ((compactArray name element).write as).2.bytes =
      (Encoding.compactLength as.length).bytes ++ as.flatMap fun a => (element.write a).2.bytes := by
  simp only [compactArray, writeItems_eq, Encoding.compactArray, Encoding.bytes_scope,
    Encoding.bytes_append, Encoding.bytes_items, List.length_map, List.flatMap_map]

theorem Codec.length_compactArray_perm {α β : Type} {name : String} {element : Codec α β}
    {as as' : List α} (h : as.Perm as') :
    ((compactArray name element).write as).2.bytes.length =
      ((compactArray name element).write as').2.bytes.length := by
  rw [bytes_compactArray, bytes_compactArray, List.length_append, List.length_append, h.length_eq,
    (h.flatMap_right _).length_eq]

theorem ProducedTopic.length_rearranged {t t' : ProducedTopic} (h : t.Rearranged t') :
    (codec.write t).2.bytes.length = (codec.write t').2.bytes.length := by
  have parts (t : ProducedTopic) : (codec.write t).2 =
      Encoding.leaf "Name" (.compactString t.name) ++
        (((Codec.compactArray "Partitions" ProducedPartition.codec).write t.partitions).2 ++
          (Encoding.emptyTagBuffer ++ [])) := rfl
  rw [parts, parts]
  simp only [Encoding.bytes_append, List.length_append, h.name,
    Codec.length_compactArray_perm h.partitions]

namespace ProduceExpectation

variable {e : ProduceExpectation} {r : Response ProduceResponseBody} {body : ProduceResponseBody}

/-- In another order, the answer is as long. -/
theorem length_encode_rearranged (h : r.body.Rearranged body) :
    (Response.encode { r with body := body }).length = r.encode.length := by
  obtain ⟨throttleTime, ts, perm, each⟩ := h
  have counts : ts.length = body.topics.length := each.length_eq
  have lengths := ProducedTopic.Rearranged.map_eq each fun _ _ => ProducedTopic.length_rearranged
  have topics :
      ((Codec.compactArray "Topics" ProducedTopic.codec).write body.topics).2.bytes.length =
        ((Codec.compactArray "Topics" ProducedTopic.codec).write r.body.topics).2.bytes.length := by
    rw [Codec.length_compactArray_perm perm, Codec.bytes_compactArray, Codec.bytes_compactArray,
      List.length_append, List.length_append, List.length_flatMap, List.length_flatMap, counts,
      lengths]
  show (Encoding.bytes (Response.encoding _)).length = (Encoding.bytes r.encoding).length
  rw [encoding_eq, encoding_eq]
  simp only [Encoding.bytes_scope, Encoding.bytes_append, List.length_append, topics, throttleTime]

theorem Answers.rearranged {wanted : ExpectedProduceTopic} {t t' : ProducedTopic}
    (h : t.Rearranged t') (answers : e.Answers wanted t) : e.Answers wanted t' where
  ids := (h.partitions.symm.map _).trans answers.ids
  agrees p hp := answers.agrees p (h.partitions.mem_iff.2 hp)

theorem Holds.perm {ts ts' : List ProducedTopic} (h : ts.Perm ts') (holds : e.Holds ts) :
    e.Holds ts' where
  names := (h.symm.map _).trans holds.names
  answers t ht := holds.answers t (h.mem_iff.2 ht)

theorem Holds.each {ts ts' : List ProducedTopic}
    (h : List.Forall₂ ProducedTopic.Rearranged ts ts') (holds : e.Holds ts) : e.Holds ts' where
  names := by
    rw [← ProducedTopic.Rearranged.map_eq h fun _ _ same => same.name]
    exact holds.names
  answers t' ht' wanted hw same := by
    obtain ⟨t, ht, rearranged⟩ := ProducedTopic.Rearranged.of_mem h ht'
    exact (holds.answers t ht wanted hw (rearranged.name.trans same)).rearranged rearranged

/-- In another order, the topics are as good. -/
theorem holds_rearranged (h : r.body.Rearranged body) :
    e.Holds body.topics ↔ e.Holds r.body.topics := by
  obtain ⟨-, ts, perm, each⟩ := h
  constructor
  · intro holds
    exact (holds.each (ProducedTopic.Rearranged.each_symm each)).perm perm.symm
  · intro holds
    exact (holds.perm perm).each each

theorem heads_rearranged (h : r.body.Rearranged body) :
    e.Heads { r with body := body } ↔ e.Heads r := by
  constructor
  · rintro ⟨correlationId, throttleTime⟩
    exact ⟨correlationId, h.throttleTime.trans throttleTime⟩
  · rintro ⟨correlationId, throttleTime⟩
    exact ⟨correlationId, h.throttleTime.symm.trans throttleTime⟩

/-! ### Nothing else -/

/-- No topic comes twice or unexpected, and no partition of a topic. -/
structure NothingElse (e : ProduceExpectation) (topics : List ProducedTopic) : Prop where
  names : (topics.map (·.name)).Nodup
  topics : ∀ t ∈ topics, ∃ wanted ∈ e.topics, wanted.name = t.name ∧
    (t.partitions.map (·.id)).Nodup ∧
      ∀ p ∈ t.partitions, ∃ q ∈ wanted.partitions, q.id = p.id

theorem Holds.nothingElse (distinct : e.Distinct) {topics : List ProducedTopic}
    (holds : e.Holds topics) : e.NothingElse topics where
  names := holds.names.nodup_iff.2 distinct.topics
  topics t ht := by
    obtain ⟨wanted, hw, name⟩ := List.mem_map.1 (holds.names.mem_iff.1 (List.mem_map_of_mem ht))
    have ids := (holds.answers t ht wanted hw name.symm).ids
    refine ⟨wanted, hw, name, ids.nodup_iff.2 (distinct.partitions wanted hw), fun p hp => ?_⟩
    obtain ⟨q, hq, id⟩ := List.mem_map.1 (ids.mem_iff.1 (List.mem_map_of_mem hp))
    exact ⟨q, hq, id⟩

/-! ### Judging -/

/-- Judging the answer behind its size, in a world, ends with an answer that passes. -/
def Passes (e : ProduceExpectation) (r : Response ProduceResponseBody) (ignoreSize : Bool)
    (w : World) : Prop :=
  ∃ r' w', (Verdict.judgeMessage e ⟨frame r.encode⟩ ignoreSize :
    Tried InWorld (Response ProduceResponseBody)).run w = .ok (.ok r') w'

theorem passes_iff (distinct : e.Distinct) (short : r.encode.length < 0x80000000)
    (ignoreSize : Bool) (w : World) :
    e.Passes r ignoreSize w ↔ e.Heads r ∧ e.Holds r.body.topics := by
  refine Verdict.passes_iff.trans ?_
  simp only [verdict_eq_ok_iff distinct short, exists_eq_left]

/-- **An answer to Produce is judged exactly, up to order.**  Where no topic is expected twice, and
no partition of a topic, an answer whose length can be told in a signed number passes, whether or
not its size is checked, if and only if it has the correlation id, was not throttled, and its topics
and their partitions are those that are expected, in any order, each as it is expected.  Hence it
passes in any other order too, and with an entry that comes twice or unexpected it never does. -/
theorem judged_upToOrder (distinct : e.Distinct) (short : r.encode.length < 0x80000000)
    (ignoreSize : Bool) (w : World) :
    (e.Passes r ignoreSize w ↔ e.Heads r ∧ e.Holds r.body.topics) ∧
    (∀ body, r.body.Rearranged body →
      (e.Passes { r with body := body } ignoreSize w ↔ e.Passes r ignoreSize w)) ∧
    (e.Passes r ignoreSize w → e.NothingElse r.body.topics) := by
  refine ⟨passes_iff distinct short ignoreSize w, fun body h => ?_, fun passes => ?_⟩
  · have short' : (Response.encode { r with body := body }).length < 0x80000000 := by
      rwa [length_encode_rearranged h]
    rw [passes_iff distinct short', passes_iff distinct short, heads_rearranged h,
      holds_rearranged h]
  · exact ((passes_iff distinct short ignoreSize w).1 passes).2.nothingElse distinct

/-- Two topics, one of them with two partitions, added at any time. -/
def twoTopics : ProduceExpectation :=
  { correlationId := 7
    topics := [⟨"orders", [.success 0 0, .success 1 5]⟩, ⟨"payments", [.error 3 3]⟩]
    logAppendTimeMs := none }

def ordersAnswered : List ProducedPartition :=
  [{ id := 0, logAppendTimeMs := 12 }, { id := 1, baseOffset := 5, logAppendTimeMs := 34 }]

def paymentsAnswered : List ProducedPartition :=
  [{ id := 3, errorCode := 3, baseOffset := -1, logStartOffset := -1 }]

def inOrder : Response ProduceResponseBody :=
  { header := { correlationId := 7 }
    body := { topics := [⟨"orders", ordersAnswered⟩, ⟨"payments", paymentsAnswered⟩] } }

/-- The body of `inOrder`, with the topics and the two partitions the other way around. -/
def outOfOrder : ProduceResponseBody :=
  { topics := [⟨"payments", paymentsAnswered⟩, ⟨"orders", ordersAnswered.reverse⟩] }

theorem rearranged_outOfOrder : inOrder.body.Rearranged outOfOrder where
  throttleTime := rfl
  topics := ⟨_, .swap .., .cons ⟨rfl, .refl _⟩ (.cons ⟨rfl, (List.reverse_perm _).symm⟩ .nil)⟩

/-- The conditions of `judged_upToOrder` hold of an answer that passes as it is and in another
order. -/
theorem judged_upToOrder_twoTopics :
    twoTopics.Distinct ∧ inOrder.encode.length < 0x80000000 ∧
    twoTopics.Passes inOrder false {} ∧
    twoTopics.Passes { inOrder with body := outOfOrder } false {} ∧
    twoTopics.NothingElse inOrder.body.topics := by
  have distinct : twoTopics.Distinct := ⟨by decide, by decide⟩
  have short : inOrder.encode.length < 0x80000000 := by decide +kernel
  obtain ⟨exact, rearranged, nothingElse⟩ := judged_upToOrder distinct short false {}
  have passes : twoTopics.Passes inOrder false {} := exact.2 ⟨⟨rfl, rfl⟩, by decide⟩
  exact ⟨distinct, short, passes, (rearranged _ rearranged_outOfOrder).2 passes,
    nothingElse passes⟩

end ProduceExpectation
end BrokerExam
